import SurveyTables.Catalog

/-!
# The index of a catalog

The index leads from every key to the place of its entry, and from no other text anywhere. So a key
stands at one place only, and a look-up finds what a search through the entries finds.

* `Catalog.Valid`: the index holds the keys with their places and nothing else;
* `Valid.nodup`, `Valid.contains_iff`, `Valid.find?_eq`: what it says about look-ups;
* `IsIndexed`, `Valid.isIndexed`: all of this together;
* **`Valid.eq_iff`**: it follows from the entries, so that catalogs with the same entries are equal;
* `valid_empty`, `Valid.push`, `Valid.add`: the operations that only append keep it.
-/

namespace SurveyTables.Catalog

variable {α : Type} {key : α → String} {c : Catalog key}

/-- The index leads from a text to a place just if the entry at this place has it as its key. -/
def Valid (c : Catalog key) : Prop :=
  ∀ k i, c.position? k = some i ↔ c.keys[i]? = some k

theorem length_keys (c : Catalog key) : c.keys.length = c.size := by
  simp [keys, toList, size]

theorem isEmpty_iff : c.isEmpty = true ↔ c.toList = [] := by
  simp [isEmpty, size, toList]

theorem contains_eq (c : Catalog key) (k : String) : c.contains k = (c.position? k).isSome := by
  rw [contains, position?, Std.ExtHashMap.contains_eq_isSome_getElem?]

namespace Valid

theorem nodup (hc : c.Valid) : c.keys.Nodup := by
  rw [List.nodup_iff_pairwise_ne, List.pairwise_iff_getElem]
  intro i j hi hj hij h
  have h₁ := (hc _ i).mpr (List.getElem?_eq_getElem hi)
  have h₂ := (hc _ j).mpr (List.getElem?_eq_getElem hj)
  rw [h, h₂] at h₁
  have := Option.some.inj h₁
  omega

theorem contains_iff (hc : c.Valid) {k : String} : c.contains k = true ↔ k ∈ c.keys := by
  rw [contains_eq, Option.isSome_iff_exists, List.mem_iff_getElem?]
  exact exists_congr fun i => hc k i

theorem position?_eq_none_iff (hc : c.Valid) {k : String} :
    c.position? k = none ↔ k ∉ c.keys := by
  rw [← hc.contains_iff, contains_eq]
  simp

theorem find?_eq (hc : c.Valid) (k : String) : c.find? k = c.toList.find? (key · == k) := by
  rw [find?]
  cases hp : c.position? k with
  | none =>
    have hk := hc.position?_eq_none_iff.mp hp
    rw [Option.bind_none, eq_comm, List.find?_eq_none]
    intro a ha
    have : key a ∈ c.keys := List.mem_map_of_mem ha
    simp only [beq_iff_eq]
    rintro rfl
    exact hk this
  | some i =>
    have hi := (hc k i).mp hp
    rw [keys, List.getElem?_map, Option.map_eq_some_iff] at hi
    obtain ⟨a, ha, rfl⟩ := hi
    have hentry : c.entries[i]? = some a := by simpa [toList] using ha
    rw [Option.bind_some, hentry, eq_comm, List.find?_eq_some_iff_getElem]
    obtain ⟨hlt, hget⟩ := List.getElem?_eq_some_iff.mp ha
    refine ⟨by simp, i, hlt, hget, fun j hj => ?_⟩
    -- an earlier entry with the key would stand at the place that the index knows
    have hlt' : j < c.toList.length := by omega
    have hkey : c.keys[j]? = some (key c.toList[j]) := by
      rw [keys, List.getElem?_map, List.getElem?_eq_getElem hlt']
      rfl
    have hpos := (hc _ j).mpr hkey
    rw [Bool.not_eq_true', beq_eq_false_iff_ne]
    intro h
    rw [h, hp] at hpos
    have := Option.some.inj hpos
    omega

/-- **Catalogs are equal just if their entries are**: these determine the index. -/
theorem eq_iff (hc : c.Valid) {c' : Catalog key} (hc' : c'.Valid) :
    c = c' ↔ c.toList = c'.toList := by
  refine ⟨congrArg toList, fun h => ?_⟩
  have hkeys : c.keys = c'.keys := congrArg (List.map key) h
  have hindex : c.index = c'.index := by
    apply Std.ExtHashMap.ext_getElem?
    intro k
    refine Option.ext fun i => ?_
    rw [← position?, ← position?, hc k i, hc' k i, hkeys]
  have hentries : c.entries = c'.entries := Array.toList_inj.mp h
  obtain ⟨entries, index⟩ := c
  obtain ⟨entries', index'⟩ := c'
  obtain rfl : entries = entries' := hentries
  obtain rfl : index = index' := hindex
  rfl

end Valid

/-- No key stands twice, and the index leads from each key to its place and from no other text. So a
look-up finds what a search through the entries finds. -/
structure IsIndexed (c : Catalog key) : Prop where
  nodup_keys : c.keys.Nodup
  position?_iff : ∀ k i, c.position? k = some i ↔ c.keys[i]? = some k
  find?_eq : ∀ k, c.find? k = c.toList.find? (key · == k)
  contains_eq : ∀ k, c.contains k = c.toList.any (key · == k)

theorem Valid.isIndexed (hc : c.Valid) : c.IsIndexed where
  nodup_keys := hc.nodup
  position?_iff := hc
  find?_eq := hc.find?_eq
  contains_eq k := by
    rw [Bool.eq_iff_iff, hc.contains_iff, keys, List.mem_map, List.any_eq_true]
    simp only [beq_iff_eq]

/-! ## Appending -/

theorem valid_empty : (empty : Catalog key).Valid := by
  intro k i
  simp [empty, position?, keys, toList]

theorem keys_push (c : Catalog key) (a : α) : (c.push a).keys = c.keys ++ [key a] := by
  simp [push, keys, toList]

theorem toList_push (c : Catalog key) (a : α) : (c.push a).toList = c.toList ++ [a] := by
  simp [push, toList]

theorem position?_push (c : Catalog key) (a : α) (k : String) :
    (c.push a).position? k = if key a = k then some c.size else c.position? k := by
  rw [push, position?, position?, Std.ExtHashMap.getElem?_insert]
  simp only [beq_iff_eq]

theorem Valid.push (hc : c.Valid) {a : α} (ha : key a ∉ c.keys) : (c.push a).Valid := by
  intro k i
  rw [position?_push, keys_push, List.getElem?_append, length_keys]
  by_cases hk : key a = k
  · subst hk
    rw [if_pos rfl, Option.some_inj]
    split
    · next hi =>
      refine ⟨fun h => by omega, fun h => absurd (List.mem_of_getElem? h) ha⟩
    · next hi =>
      rw [List.getElem?_singleton]
      constructor
      · intro h
        rw [if_pos (by omega)]
      · intro h
        split at h
        · omega
        · simp at h
  · rw [if_neg hk, hc k i]
    split
    · rfl
    · next hi =>
      rw [List.getElem?_singleton, List.getElem?_eq_none (by rw [length_keys]; omega)]
      split <;> simp [hk]

theorem keys_add (c : Catalog key) (a : α) :
    (c.add a).keys = if c.contains (key a) then c.keys else c.keys ++ [key a] := by
  rw [add]
  split
  · rfl
  · exact keys_push c a

theorem toList_add (c : Catalog key) (a : α) :
    (c.add a).toList = if c.contains (key a) then c.toList else c.toList ++ [a] := by
  rw [add]
  split
  · rfl
  · exact toList_push c a

theorem Valid.add (hc : c.Valid) (a : α) : (c.add a).Valid := by
  rw [Catalog.add]
  split
  · exact hc
  · next h => exact hc.push (mt hc.contains_iff.mpr h)

/-- The places of the keys that are there stay, and a new key comes to the end. -/
theorem position?_add (c : Catalog key) (a : α) (k : String) :
    (c.add a).position? k = (c.position? k).or (if key a = k then some c.size else none) := by
  rw [add]
  split
  · next h =>
    by_cases hk : key a = k
    · rw [contains_eq, hk, Option.isSome_iff_exists] at h
      obtain ⟨i, hi⟩ := h
      rw [hi, Option.some_or]
    · rw [if_neg hk, Option.or_none]
  · next h =>
    rw [position?_push]
    by_cases hk : key a = k
    · rw [contains_eq, hk, Bool.not_eq_true, Option.isSome_eq_false_iff, Option.isNone_iff_eq_none]
        at h
      rw [if_pos hk, h, if_pos hk, Option.none_or]
    · rw [if_neg hk, if_neg hk, Option.or_none]

end SurveyTables.Catalog
