import SurveyTables.Proofs.Tabulation.GroupKeys

/-!
# Keys in four containers

The classes of a group can be kept in four containers: the numbers of the respondents' keys, the keys and
the answers by number, and a map from keys to numbers. The numbers have 32 bits.

* `InternedKeys`, `InternedKeys.keyOf?`, `InternedKeys.sortedIds`: the containers, the number of a
  respondent's key, and the numbers in order;
* `InternedKeys.intern`, `InternedKeys.note`, `InternedKeys.ofAnswers`: a key that is old or new, one more
  respondent, and all of them;
* `Holds`: the containers hold the classes, with their numbers cut to 32 bits;
* `holds_empty`, **`Holds.note`**, **`holds_ofAnswers`**: nothing is held at first, and one more respondent
  keeps this, so it holds of all;
* `Holds.ids_eq_some_iff`, `Holds.keyOf?_eq_some_iff`, **`Holds.sortedIds_eq`**: below `2 ^ 32` classes the
  numbers are those of the classes.
-/

namespace SurveyTables.Tabulation

/-- The keys of a group, with the number of each respondent's key. -/
structure InternedKeys where
  /-- The number of the key of each respondent, if there is one. -/
  respondentKeys : Array (Option UInt32) := #[]
  /-- The keys by their numbers. -/
  keys : Array String := #[]
  /-- The answers of the first respondent with each key, by its number. -/
  values : Array (List Answer) := #[]
  /-- The numbers of the keys. -/
  ids : Std.HashMap String UInt32 := ∅

namespace InternedKeys

/-- The number of a key, which is the next one if the key is new. -/
def intern (c : InternedKeys) (key : String) (answers : List Answer) : UInt32 × InternedKeys :=
  match c.ids[key]? with
  | some id => (id, c)
  | none =>
    let id := UInt32.ofNat c.keys.size
    (id, { c with
      ids := c.ids.insert key id
      keys := c.keys.push key
      values := c.values.push answers })

/-- The keys with one more respondent, who gave the answers or is left out. -/
def note (g : Group) (c : InternedKeys) : Option (List Answer) → InternedKeys
  | none => { c with respondentKeys := c.respondentKeys.push none }
  | some answers =>
    let (id, c) := c.intern (groupKey g answers) answers
    { c with respondentKeys := c.respondentKeys.push (some id) }

/-- The keys of a group, where every respondent gave the answers or is left out. -/
def ofAnswers (g : Group) (answers : List (Option (List Answer))) : InternedKeys :=
  answers.foldl (note g) {}

/-- The number of the key of a respondent. -/
def keyOf? (c : InternedKeys) (respondent : Nat) : Option UInt32 :=
  (c.respondentKeys[respondent]?).join

/-- The order of numbers: by the answers, then by the keys. -/
def order (c : InternedKeys) (a b : UInt32) : Ordering :=
  (Answer.orderAll (c.values.getD a.toNat []) (c.values.getD b.toNat [])).then
    (compare (c.keys.getD a.toNat "") (c.keys.getD b.toNat ""))

/-- The numbers from zero to that of as many keys as there are, in order. -/
def sortedIds (c : InternedKeys) : List UInt32 :=
  ((List.range (UInt32.ofNat c.keys.size).toNat).map UInt32.ofNat).mergeSort
    fun a b => c.order a b != .gt

/-- The containers hold the classes. The numbers of these begin again after 32 bits. -/
structure Holds (c : InternedKeys) (k : GroupKeys) : Prop where
  respondentKeys_eq : c.respondentKeys.toList = k.marks.toList.map (Option.map UInt32.ofNat)
  keys_eq : c.keys.toList = k.entries.keys
  values_eq : c.values.toList = k.entries.toList.map KeyEntry.answers
  ids_eq : ∀ key, c.ids[key]? = (k.entries.position? key).map UInt32.ofNat

theorem holds_empty : Holds {} {} where
  respondentKeys_eq := rfl
  keys_eq := rfl
  values_eq := rfl
  ids_eq key := by simp [Catalog.position?, Catalog.empty]

namespace Holds

variable {c : InternedKeys} {k : GroupKeys} (h : c.Holds k)
include h

theorem size_keys : c.keys.size = k.entries.size := by
  rw [← Array.length_toList, h.keys_eq, Catalog.length_keys]

theorem size_values : c.values.size = c.keys.size := by
  rw [h.size_keys, ← Array.length_toList, h.values_eq, List.length_map]
  rfl

/-! ## One more respondent -/

theorem intern (g : Group) (answers : List Answer) :
    (c.intern (groupKey g answers) answers).1 =
      UInt32.ofNat ((k.entries.position? (groupKey g answers)).getD k.entries.size) ∧
    (c.intern (groupKey g answers) answers).2.Holds
      { k with entries := k.entries.add { key := groupKey g answers, answers } } := by
  have hids := h.ids_eq (groupKey g answers)
  cases hplace : k.entries.position? (groupKey g answers) with
  | some i =>
    rw [hplace, Option.map_some] at hids
    rw [InternedKeys.intern, hids, Catalog.add, Catalog.contains_eq, hplace]
    exact ⟨rfl, h⟩
  | none =>
    rw [hplace, Option.map_none] at hids
    have hadd : k.entries.add { key := groupKey g answers, answers } =
        k.entries.push { key := groupKey g answers, answers } := by
      rw [Catalog.add, Catalog.contains_eq, hplace]
      rfl
    rw [InternedKeys.intern, hids, hadd]
    refine ⟨congrArg UInt32.ofNat h.size_keys, h.respondentKeys_eq, ?_, ?_, fun key => ?_⟩
    · rw [Array.toList_push, h.keys_eq, Catalog.keys_push]
    · rw [Array.toList_push, h.values_eq, Catalog.toList_push, List.map_append]
      rfl
    · rw [Std.HashMap.getElem?_insert, h.ids_eq, Catalog.position?_push, h.size_keys]
      by_cases hkey : groupKey g answers = key
      · rw [if_pos (beq_iff_eq.mpr hkey), if_pos hkey, Option.map_some]
      · rw [if_neg (mt beq_iff_eq.mp hkey), if_neg hkey]

theorem note (g : Group) (answers : Option (List Answer)) :
    (InternedKeys.note g c answers).Holds (GroupKeys.note g k answers) := by
  cases answers with
  | none =>
    refine ⟨?_, h.keys_eq, h.values_eq, h.ids_eq⟩
    simp only [InternedKeys.note, GroupKeys.note, Array.toList_push, h.respondentKeys_eq, List.map_append]
    rfl
  | some answers =>
    obtain ⟨hid, hkeys⟩ := h.intern g answers
    refine ⟨?_, hkeys.keys_eq, hkeys.values_eq, hkeys.ids_eq⟩
    have hmarks := hkeys.respondentKeys_eq
    simp only [InternedKeys.note, GroupKeys.note, Array.toList_push, hmarks, hid, List.map_append]
    rfl

theorem foldl_note (g : Group) (answers : List (Option (List Answer))) :
    (answers.foldl (InternedKeys.note g) c).Holds (answers.foldl (GroupKeys.note g) k) := by
  induction answers generalizing c k with
  | nil => exact h
  | cons a answers ih => exact ih (h.note g a)

/-! ## The numbers of the keys -/

theorem keyOf?_eq (n : Nat) : c.keyOf? n = (k.mark? n).map UInt32.ofNat := by
  rw [keyOf?, GroupKeys.mark?, ← Array.getElem?_toList, h.respondentKeys_eq, List.getElem?_map,
    Array.getElem?_toList]
  cases k.marks[n]? <;> rfl

theorem getD_keys {a : Nat} {e : KeyEntry} (he : k.entries.toList[a]? = some e) :
    c.keys.getD a "" = e.key := by
  rw [Array.getD_eq_getD_getElem?, ← Array.getElem?_toList, h.keys_eq, Catalog.keys, List.getElem?_map,
    he]
  rfl

theorem getD_values {a : Nat} {e : KeyEntry} (he : k.entries.toList[a]? = some e) :
    c.values.getD a [] = e.answers := by
  rw [Array.getD_eq_getD_getElem?, ← Array.getElem?_toList, h.values_eq, List.getElem?_map, he]
  rfl

section Bounded

variable (hsize : c.keys.size < UInt32.size)
include hsize

theorem toNat_ofNat {a : Nat} (ha : a < k.entries.size) : (UInt32.ofNat a).toNat = a := by
  rw [h.size_keys] at hsize
  exact UInt32.toNat_ofNat_of_lt' (ha.trans hsize)

theorem map_ofNat_eq_some_iff {place : Option Nat} (hplace : ∀ a, place = some a → a < k.entries.size)
    {id : UInt32} : place.map UInt32.ofNat = some id ↔ place = some id.toNat := by
  rw [Option.map_eq_some_iff]
  constructor
  · rintro ⟨a, ha, rfl⟩
    rw [h.toNat_ofNat hsize (hplace a ha), ha]
  · exact fun hid => ⟨_, hid, UInt32.ofNat_toNat⟩

/-- **The numbers in order are those of the classes in order.** -/
theorem sortedIds_eq : c.sortedIds = k.sorted.map fun entry => UInt32.ofNat entry.2 := by
  have hids : (k.entries.toList.zipIdx.map fun entry => UInt32.ofNat entry.2) =
      (List.range (UInt32.ofNat c.keys.size).toNat).map UInt32.ofNat := by
    have hcount : (UInt32.ofNat c.keys.size).toNat = k.entries.toList.length :=
      (UInt32.toNat_ofNat_of_lt' hsize).trans h.size_keys
    rw [hcount, List.range_eq_range', ← List.zipIdx_map_snd, List.map_map]
    rfl
  rw [sortedIds, GroupKeys.sorted, ← hids]
  refine (List.map_mergeSort fun a ha b hb => ?_).symm
  have hentry : ∀ entry ∈ k.entries.toList.zipIdx, k.entries.toList[entry.2]? = some entry.1 :=
    fun entry hentry => List.mem_zipIdx_iff_getElem?.mp hentry
  have hlt : ∀ entry ∈ k.entries.toList.zipIdx, (UInt32.ofNat entry.2).toNat = entry.2 :=
    fun entry he => h.toNat_ofNat hsize (List.getElem?_eq_some_iff.mp (hentry entry he)).1
  rw [order, hlt a ha, hlt b hb, h.getD_values (hentry a ha), h.getD_values (hentry b hb),
    h.getD_keys (hentry a ha), h.getD_keys (hentry b hb)]
  rfl

end Bounded

end Holds

/-- **The containers of all respondents hold their classes.** -/
theorem holds_ofAnswers (g : Group) (answers : List (Option (List Answer))) :
    (ofAnswers g answers).Holds (GroupKeys.ofAnswers g answers) :=
  holds_empty.foldl_note g answers

end InternedKeys

end SurveyTables.Tabulation
