import Mathlib.Data.List.Induction
import Mathlib.Data.List.InsertIdx
import Mathlib.Data.List.Nodup
import SurveyTables.Proofs.Catalog

/-!
# Changes of a catalog

The operations that change an entry of a catalog keep its index right.

* **`Valid.put`**, `Valid.keys_put`, `Valid.find?_put`: an entry put in the place of the one with its key;
* **`Valid.erase`**, `Valid.toList_erase`: an entry taken out;
* `Valid.renew`, `Valid.toList_renew`, `Valid.find?_renew`: an entry moved to the end with a new content;
* `Valid.foldl_put`, `Valid.keys_foldl_put`, `Valid.find?_foldl_put`: entries put one after the other, of
  which the first with a key gives it its place and the last its content;
* `pairwise_idxOf_eraseDups`, `eraseDups_filter`: what a list has, in the order of the first places;
* `lastOfEach`, **`Valid.toList_foldl_renew_eq`**: entries moved to the end one after the other, of which
  the last with a key stays.
-/

namespace SurveyTables.Catalog

variable {α : Type} {key : α → String} {c : Catalog key}

theorem getElem?_entries (c : Catalog key) (i : Nat) : c.entries[i]? = c.toList[i]? := by
  rw [toList, Array.getElem?_toList]

namespace Valid

theorem exists_entry (hc : c.Valid) {k : String} {i : Nat} (h : c.position? k = some i) :
    ∃ a, c.toList[i]? = some a ∧ key a = k := by
  have hkey := (hc k i).mp h
  rwa [keys, List.getElem?_map, Option.map_eq_some_iff] at hkey

theorem find?_isSome_iff (hc : c.Valid) {k : String} : (c.find? k).isSome = true ↔ k ∈ c.keys := by
  rw [hc.find?_eq, List.find?_isSome, keys, List.mem_map]
  simp only [beq_iff_eq]

theorem key_of_find? (hc : c.Valid) {k : String} {a : α} (h : c.find? k = some a) : key a = k := by
  rw [hc.find?_eq] at h
  have hkey := List.find?_some h
  rwa [beq_iff_eq] at hkey

theorem mem_of_find? (hc : c.Valid) {k : String} {a : α} (h : c.find? k = some a) : a ∈ c.toList := by
  rw [hc.find?_eq] at h
  exact List.mem_of_find?_eq_some h

theorem find?_of_mem (hc : c.Valid) {a : α} (ha : a ∈ c.toList) : c.find? (key a) = some a := by
  obtain ⟨b, hb⟩ := Option.isSome_iff_exists.mp (hc.find?_isSome_iff.mpr (List.mem_map_of_mem ha))
  rw [hb, List.inj_on_of_nodup_map hc.nodup (hc.mem_of_find? hb) ha (hc.key_of_find? hb)]

theorem find?_eq_some_iff (hc : c.Valid) {k : String} {a : α} :
    c.find? k = some a ↔ a ∈ c.toList ∧ key a = k := by
  refine ⟨fun h => ⟨hc.mem_of_find? h, hc.key_of_find? h⟩, ?_⟩
  rintro ⟨ha, rfl⟩
  exact hc.find?_of_mem ha

theorem find?_eq_none_iff (hc : c.Valid) {k : String} : c.find? k = none ↔ k ∉ c.keys := by
  rw [← hc.find?_isSome_iff, Option.not_isSome_iff_eq_none]

theorem toList_eq_filterMap (hc : c.Valid) : c.toList = c.keys.filterMap c.find? := by
  have hfind : ∀ a ∈ c.toList, (c.find? ∘ key) a = some a := fun a ha => hc.find?_of_mem ha
  rw [keys, List.filterMap_map, List.filterMap_congr hfind, List.filterMap_some]

theorem eq_iff_find? (hc : c.Valid) {c' : Catalog key} (hc' : c'.Valid) :
    c = c' ↔ c.keys = c'.keys ∧ ∀ k, c.find? k = c'.find? k := by
  refine ⟨fun h => h ▸ ⟨rfl, fun _ => rfl⟩, fun ⟨hkeys, hfind⟩ => (hc.eq_iff hc').mpr ?_⟩
  rw [hc.toList_eq_filterMap, hc'.toList_eq_filterMap, hkeys, funext hfind]

end Valid

/-! ## Putting an entry in its place -/

theorem position?_put (c : Catalog key) (a : α) (k : String) :
    (c.put a).position? k = (c.position? k).or (if key a = k then some c.size else none) := by
  rw [put]
  split
  · next i hi =>
    by_cases hk : key a = k
    · rw [if_pos hk, ← hk, hi, Option.some_or]
      exact hi
    · rw [if_neg hk, Option.or_none]
      rfl
  · next hi =>
    rw [position?_push]
    by_cases hk : key a = k
    · rw [if_pos hk, if_pos hk, ← hk, hi, Option.none_or]
    · rw [if_neg hk, if_neg hk, Option.or_none]

theorem toList_put_of_position? {a : α} {i : Nat} (hi : c.position? (key a) = some i) :
    (c.put a).toList = c.toList.set i a := by
  rw [put, hi]
  exact Array.toList_setIfInBounds

namespace Valid

theorem put_of_mem (hc : c.Valid) {a : α} (ha : key a ∈ c.keys) :
    (c.put a).Valid ∧ (c.put a).keys = c.keys := by
  obtain ⟨i, hi⟩ := List.mem_iff_getElem?.mp ha
  have hposition := (hc _ i).mpr hi
  have hkeys : (c.put a).keys = c.keys := by
    obtain ⟨hlt, hget⟩ := List.getElem?_eq_some_iff.mp hi
    rw [keys, toList_put_of_position? hposition, List.map_set, ← hget]
    exact List.set_getElem_self hlt
  refine ⟨fun k j => ?_, hkeys⟩
  rw [hkeys, ← hc k j, position?_put]
  by_cases hk : key a = k
  · rw [← hk, hposition, Option.some_or]
  · rw [if_neg hk, Option.or_none]

theorem toList_put_of_split (hc : c.Valid) {before behind : List α} {old a : α}
    (hsplit : c.toList = before ++ old :: behind) (hkey : key old = key a) :
    (c.put a).toList = before ++ a :: behind := by
  have hplace : c.keys[before.length]? = some (key a) := by
    rw [keys, hsplit, List.getElem?_map, List.getElem?_append_right (Nat.le_refl _), Nat.sub_self,
      List.getElem?_cons_zero, Option.map_some, hkey]
  rw [toList_put_of_position? ((hc _ _).mpr hplace), hsplit, List.set_append_right _ _ (Nat.le_refl _),
    Nat.sub_self, List.set_cons_zero]

theorem put_of_notMem (hc : c.Valid) {a : α} (ha : key a ∉ c.keys) : c.put a = c.push a := by
  rw [put, hc.position?_eq_none_iff.mpr ha]

/-- **An entry put in its place keeps the index right.** -/
theorem put (hc : c.Valid) (a : α) : (c.put a).Valid := by
  by_cases ha : key a ∈ c.keys
  · exact (hc.put_of_mem ha).1
  · rw [hc.put_of_notMem ha]
    exact hc.push ha

theorem keys_put (hc : c.Valid) (a : α) :
    (c.put a).keys = if key a ∈ c.keys then c.keys else c.keys ++ [key a] := by
  split
  · next ha => exact (hc.put_of_mem ha).2
  · next ha => rw [hc.put_of_notMem ha, keys_push]

theorem find?_push (hc : c.Valid) {a : α} (ha : key a ∉ c.keys) (k : String) :
    (c.push a).find? k = if key a = k then some a else c.find? k := by
  rw [(hc.push ha).find?_eq, toList_push, List.find?_append, ← hc.find?_eq, List.find?_singleton]
  by_cases hk : key a = k
  · have hnone : c.find? k = none := hc.find?_eq_none_iff.mpr (hk ▸ ha)
    rw [hnone, Option.none_or, if_pos (beq_iff_eq.mpr hk), if_pos hk]
  · rw [if_neg (mt beq_iff_eq.mp hk), if_neg hk, Option.or_none]

theorem find?_put (hc : c.Valid) (a : α) (k : String) :
    (c.put a).find? k = if key a = k then some a else c.find? k := by
  by_cases ha : key a ∈ c.keys
  · obtain ⟨i, hi⟩ := List.mem_iff_getElem?.mp ha
    have hposition := (hc _ i).mpr hi
    have hlt : i < c.toList.length := by
      obtain ⟨b, hb, -⟩ := hc.exists_entry hposition
      exact (List.getElem?_eq_some_iff.mp hb).1
    have hplaces : (c.put a).position? k = c.position? k := by
      rw [position?_put]
      by_cases hk : key a = k
      · rw [← hk, hposition, Option.some_or]
      · rw [if_neg hk, Option.or_none]
    rw [find?, find?, hplaces]
    simp only [getElem?_entries, toList_put_of_position? hposition]
    by_cases hk : key a = k
    · rw [if_pos hk, ← hk, hposition, Option.bind_some, List.getElem?_set_self hlt]
    · rw [if_neg hk]
      refine Option.bind_congr fun j hj => ?_
      -- another key stands at another place
      have hne : i ≠ j := by
        rintro rfl
        obtain ⟨b, hb, hkey⟩ := hc.exists_entry hposition
        obtain ⟨b', hb', hkey'⟩ := hc.exists_entry hj
        rw [hb] at hb'
        exact hk (hkey.symm.trans (by rw [Option.some.inj hb', hkey']))
      rw [List.getElem?_set_ne hne]
  · rw [hc.put_of_notMem ha, hc.find?_push ha]

theorem mem_put (hc : c.Valid) {a b : α} (hb : b ∈ (c.put a).toList) :
    b = a ∨ b ∈ c.toList ∧ key b ≠ key a := by
  have hfind := (hc.put a).find?_of_mem hb
  rw [hc.find?_put] at hfind
  split at hfind
  · exact .inl (Option.some.inj hfind).symm
  · next hk => exact .inr ⟨hc.mem_of_find? hfind, Ne.symm hk⟩

/-! ## Entries put one after the other -/

theorem foldl_put (hc : c.Valid) (as : List α) : (as.foldl Catalog.put c).Valid := by
  induction as generalizing c with
  | nil => exact hc
  | cons a as ih => exact ih (hc.put a)

end Valid

section EraseDups

variable {β : Type} [BEq β] [LawfulBEq β]

theorem eraseDups_append_singleton (ks : List β) (k : β) :
    (ks ++ [k]).eraseDups = if k ∈ ks then ks.eraseDups else ks.eraseDups ++ [k] := by
  rw [List.eraseDups_append]
  split
  · next hk => simp [List.removeAll, hk]
  · next hk => simp [List.removeAll, hk, List.eraseDups_cons]

theorem pairwise_idxOf_eraseDups (ks : List β) :
    ks.eraseDups.Pairwise fun k l => ks.idxOf k < ks.idxOf l := by
  induction ks using List.reverseRecOn with
  | nil => exact List.Pairwise.nil
  | append_singleton ks k ih =>
    have hold : ks.eraseDups.Pairwise fun l m => (ks ++ [k]).idxOf l < (ks ++ [k]).idxOf m := by
      refine ih.imp_of_mem fun {l m} hl hm hlt => ?_
      rwa [List.idxOf_append_of_mem (List.mem_eraseDups.mp hl),
        List.idxOf_append_of_mem (List.mem_eraseDups.mp hm)]
    rw [eraseDups_append_singleton]
    split
    · exact hold
    · next hk =>
      rw [List.pairwise_append]
      refine ⟨hold, List.pairwise_singleton _ _, fun l hl m hm => ?_⟩
      have hmem := List.mem_eraseDups.mp hl
      rw [List.mem_singleton.mp hm, List.idxOf_append_of_mem hmem, List.idxOf_append_of_notMem hk]
      exact Nat.lt_add_right _ (List.idxOf_lt_length_iff.mpr hmem)

theorem nodup_eraseDups (ks : List β) : ks.eraseDups.Nodup :=
  (pairwise_idxOf_eraseDups ks).imp fun hlt heq => absurd (heq ▸ hlt) (Nat.lt_irrefl _)

theorem eraseDups_filter (p : β → Bool) (ks : List β) :
    (ks.filter p).eraseDups = ks.eraseDups.filter p := by
  induction ks using List.reverseRecOn with
  | nil => rfl
  | append_singleton ks k ih =>
    rw [eraseDups_append_singleton, List.filter_append]
    by_cases hp : p k = true
    · have hone : [k].filter p = [k] := List.filter_cons_of_pos hp
      rw [hone, eraseDups_append_singleton, ih]
      by_cases hk : k ∈ ks
      · rw [if_pos hk, if_pos (List.mem_filter.mpr ⟨hk, hp⟩)]
      · rw [if_neg hk, if_neg fun h => hk (List.mem_of_mem_filter h), List.filter_append, hone]
    · have hnone : [k].filter p = [] := List.filter_cons_of_neg hp
      rw [hnone, List.append_nil, ih]
      split
      · rfl
      · rw [List.filter_append, hnone, List.append_nil]

end EraseDups

theorem eraseDups_append_append (ks ls : List String) :
    (ks ++ (ks ++ ls)).eraseDups = (ks ++ ls).eraseDups := by
  have hseen : (ks ++ ls).removeAll ks = ls.removeAll ks := by
    have hnone : ks.removeAll ks = [] := by
      rw [List.removeAll, List.filter_eq_nil_iff]
      intro k hk
      simpa using hk
    rw [List.removeAll, List.filter_append]
    exact (congrArg (· ++ _) hnone).trans (List.nil_append _)
  rw [List.eraseDups_append, hseen, ← List.eraseDups_append]

theorem eraseDups_eq_self {ks : List String} (h : ks.Nodup) : ks.eraseDups = ks := by
  induction ks using List.reverseRecOn with
  | nil => rfl
  | append_singleton ks k ih =>
    rw [List.nodup_append] at h
    rw [eraseDups_append_singleton, if_neg, ih h.1]
    exact fun hk => h.2.2 k hk k (List.mem_singleton_self k) rfl

namespace Valid

theorem keys_foldl_put (hc : c.Valid) (as : List α) :
    (as.foldl Catalog.put c).keys = (c.keys ++ as.map key).eraseDups := by
  induction as using List.reverseRecOn with
  | nil => rw [List.foldl_nil, List.map_nil, List.append_nil, eraseDups_eq_self hc.nodup]
  | append_singleton as a ih =>
    rw [List.foldl_append, List.foldl_cons, List.foldl_nil, (hc.foldl_put as).keys_put, ih,
      List.map_append, List.map_singleton, ← List.append_assoc, eraseDups_append_singleton]
    simp only [List.mem_eraseDups]

theorem find?_foldl_put (hc : c.Valid) (as : List α) (k : String) :
    (as.foldl Catalog.put c).find? k = (as.reverse.find? (key · == k)).or (c.find? k) := by
  induction as using List.reverseRecOn with
  | nil => rfl
  | append_singleton as a ih =>
    rw [List.foldl_append, List.foldl_cons, List.foldl_nil, (hc.foldl_put as).find?_put, ih,
      List.reverse_append, List.reverse_singleton, List.singleton_append, List.find?_cons]
    by_cases hk : key a = k
    · rw [if_pos hk, beq_iff_eq.mpr hk]
      rfl
    · rw [if_neg hk, beq_eq_false_iff_ne.mpr hk]

theorem toList_foldl_put (hc : c.Valid) {as : List α} (h : (c.keys ++ as.map key).Nodup) :
    (as.foldl Catalog.put c).toList = c.toList ++ as := by
  induction as generalizing c with
  | nil => rw [List.foldl_nil, List.append_nil]
  | cons a as ih =>
    rw [List.map_cons, List.append_cons] at h
    have hnew : key a ∉ c.keys := by
      have hnodup := (List.nodup_append.mp h).1
      rw [List.nodup_append] at hnodup
      exact fun ha => hnodup.2.2 _ ha _ (List.mem_singleton_self _) rfl
    rw [List.foldl_cons, hc.put_of_notMem hnew, ih (hc.push hnew) (by rwa [keys_push]), toList_push,
      List.append_assoc, List.singleton_append]

theorem ofList_toList (hc : c.Valid) : ofList c.toList = c := by
  have hnodup : ((empty : Catalog key).keys ++ c.toList.map key).Nodup := hc.nodup
  exact ((valid_empty.foldl_put c.toList).eq_iff hc).mpr (valid_empty.toList_foldl_put hnodup)

end Valid

/-! ## Taking an entry out -/

theorem position?_erase {k : String} {i : Nat} (hi : c.position? k = some i) (k' : String) :
    (c.erase k).position? k' = if k = k' then none
      else (c.position? k').map fun j => if i < j then j - 1 else j := by
  rw [erase, hi, position?, position?, Std.ExtHashMap.getElem?_map, Std.ExtHashMap.getElem?_erase]
  by_cases hk : k = k'
  · rw [if_pos hk, if_pos (beq_iff_eq.mpr hk), Option.map_none]
  · rw [if_neg hk, if_neg (mt beq_iff_eq.mp hk)]

theorem toList_erase_of_position? {k : String} {i : Nat} (hi : c.position? k = some i) :
    (c.erase k).toList = c.toList.eraseIdx i := by
  rw [erase, hi]
  exact Array.toList_eraseIdxIfInBounds

theorem filter_key_ne {before behind : List α} {a : α}
    (h : ((before ++ a :: behind).map key).Nodup) :
    ((before ++ a :: behind).filter fun b => key b != key a) = before ++ behind := by
  rw [List.map_append, List.map_cons, List.nodup_append, List.nodup_cons] at h
  have hbefore : ∀ b ∈ before, (key b != key a) = true := by
    intro b hb
    rw [bne_iff_ne]
    exact h.2.2 _ (List.mem_map_of_mem hb) _ List.mem_cons_self
  have hbehind : ∀ b ∈ behind, (key b != key a) = true := by
    intro b hb
    rw [bne_iff_ne]
    exact fun heq => h.2.1.1 (heq ▸ List.mem_map_of_mem hb)
  rw [List.filter_append, List.filter_cons_of_neg (by simp), List.filter_eq_self.mpr hbefore,
    List.filter_eq_self.mpr hbehind]

/-- An entry that is taken is the one that is found, and the catalog that is left is that without it. -/
theorem take_eq (c : Catalog key) (k : String) : c.take k = (c.find? k, c.erase k) := by
  rw [take, find?, erase]
  cases hi : c.position? k with
  | some i => rfl
  | none =>
    have hindex : c.index.erase k = c.index := by
      refine Std.ExtHashMap.ext_getElem? fun k' => ?_
      rw [Std.ExtHashMap.getElem?_erase]
      split
      · next hk => exact (beq_iff_eq.mp hk ▸ hi).symm
      · rfl
    exact congrArg (Prod.mk none) (congrArg (Catalog.mk c.entries) hindex)

namespace Valid

/-- **An entry taken out leaves the index right.** -/
theorem erase (hc : c.Valid) (k : String) : (c.erase k).Valid := by
  cases hi : c.position? k with
  | none =>
    rw [Catalog.erase, hi]
    exact hc
  | some i =>
    intro k' j
    rw [position?_erase hi, keys, toList_erase_of_position? hi, ← List.eraseIdx_map,
      List.getElem?_eraseIdx]
    have hkey := (hc k i).mp hi
    have hplace := hc k'
    by_cases hk : k = k'
    · subst hk
      -- the key stood at one place only
      have honly : ∀ n : Nat, n ≠ i → ¬ c.keys[n]? = some k := by
        intro n hn h
        rw [← hplace, hi, Option.some_inj] at h
        exact hn h.symm
      rw [if_pos rfl]
      constructor
      · intro h
        contradiction
      · intro h
        split at h
        · exact absurd h (honly j (by omega))
        · exact absurd h (honly (j + 1) (by omega))
    · rw [if_neg hk, Option.map_eq_some_iff]
      constructor
      · rintro ⟨n, hn, hj⟩
        have hne : n ≠ i := by
          rintro rfl
          rw [hplace, hkey, Option.some_inj] at hn
          exact hk hn
        rw [hplace] at hn
        by_cases hlt : i < n
        · rw [if_pos hlt] at hj
          rw [if_neg (by omega), show j + 1 = n by omega]
          exact hn
        · rw [if_neg hlt] at hj
          rw [if_pos (by omega), ← hj]
          exact hn
      · intro h
        split at h
        · next hlt => exact ⟨j, (hplace j).mpr h, if_neg (by omega)⟩
        · next hlt => exact ⟨j + 1, (hplace (j + 1)).mpr h, by rw [if_pos (by omega)]; omega⟩

theorem erase_of_notMem (hc : c.Valid) {k : String} (hk : k ∉ c.keys) : c.erase k = c := by
  rw [Catalog.erase, hc.position?_eq_none_iff.mpr hk]

theorem toList_erase (hc : c.Valid) (k : String) :
    (c.erase k).toList = c.toList.filter fun a => key a != k := by
  cases hi : c.position? k with
  | none =>
    have hk := hc.position?_eq_none_iff.mp hi
    rw [hc.erase_of_notMem hk, eq_comm, List.filter_eq_self]
    intro a ha
    rw [bne_iff_ne]
    rintro rfl
    exact hk (List.mem_map_of_mem ha)
  | some i =>
    obtain ⟨a, ha, hkey⟩ := hc.exists_entry hi
    obtain ⟨hlt, rfl⟩ := List.getElem?_eq_some_iff.mp ha
    have hsplit : c.toList = c.toList.take i ++ c.toList[i] :: c.toList.drop (i + 1) := by
      rw [List.getElem_cons_drop, List.take_append_drop]
    have hnodup := hc.nodup
    rw [keys, hsplit] at hnodup
    rw [toList_erase_of_position? hi, List.eraseIdx_eq_take_drop_succ]
    conv => rhs; rw [hsplit, ← hkey, filter_key_ne hnodup]

/-! ## Moving an entry to the end -/

theorem key_notMem_erase (hc : c.Valid) (k : String) : k ∉ (c.erase k).keys := by
  rw [keys, hc.toList_erase, List.mem_map]
  rintro ⟨a, ha, hkey⟩
  rw [List.mem_filter, bne_iff_ne] at ha
  exact ha.2 hkey

theorem renew (hc : c.Valid) (a : α) : (c.renew a).Valid :=
  (hc.erase (key a)).push (hc.key_notMem_erase (key a))

theorem toList_renew (hc : c.Valid) (a : α) :
    (c.renew a).toList = (c.toList.filter fun b => key b != key a) ++ [a] := by
  rw [Catalog.renew, toList_push, hc.toList_erase]

theorem keys_renew (hc : c.Valid) (a : α) :
    (c.renew a).keys = (c.keys.filter fun k => k != key a) ++ [key a] := by
  rw [keys, hc.toList_renew, List.map_append, List.map_singleton, keys, List.filter_map]
  rfl

theorem find?_renew (hc : c.Valid) (a : α) (k : String) :
    (c.renew a).find? k = if key a = k then some a else c.find? k := by
  rw [Catalog.renew, (hc.erase (key a)).find?_push (hc.key_notMem_erase (key a))]
  split
  · rfl
  · next hk =>
    refine Option.ext fun b => ?_
    rw [(hc.erase (key a)).find?_eq_some_iff, hc.find?_eq_some_iff, hc.toList_erase, List.mem_filter,
      bne_iff_ne, and_assoc]
    refine and_congr_right fun _ => and_iff_right_of_imp ?_
    rintro rfl
    exact Ne.symm hk

end Valid

/-! ## Moving entries to the end one after the other -/

/-- The entries that are the last with their key, in order. -/
def lastOfEach (key : α → String) : List α → List α
  | [] => []
  | a :: as => if key a ∈ as.map key then lastOfEach key as else a :: lastOfEach key as

theorem lastOfEach_eq_self {as : List α} (h : (as.map key).Nodup) : lastOfEach key as = as := by
  induction as with
  | nil => rfl
  | cons a as ih =>
    rw [List.map_cons, List.nodup_cons] at h
    rw [lastOfEach, if_neg h.1, ih h.2]

namespace Valid

theorem foldl_renew (hc : c.Valid) (as : List α) : (as.foldl Catalog.renew c).Valid := by
  induction as generalizing c with
  | nil => exact hc
  | cons a as ih => exact ih (hc.renew a)

/-- **Of entries moved to the end one after the other** the last with each key stays, behind the entries
that were there before and have other keys. -/
theorem toList_foldl_renew_eq (hc : c.Valid) (as : List α) :
    (as.foldl Catalog.renew c).toList =
      (c.toList.filter fun b => key b ∉ as.map key) ++ lastOfEach key as := by
  induction as generalizing c with
  | nil => simp [lastOfEach]
  | cons a as ih =>
    have hkept : ∀ b, (decide (key b ∉ as.map key) && (key b != key a)) =
        decide (key b ∉ (a :: as).map key) := by
      intro b
      rw [Bool.eq_iff_iff]
      simp [and_comm]
    rw [List.foldl_cons, ih (hc.renew a), hc.toList_renew, List.filter_append, List.filter_filter,
      List.append_assoc, lastOfEach]
    simp only [hkept]
    congr 1
    by_cases ha : key a ∈ as.map key
    · rw [if_pos ha, List.filter_cons_of_neg (by simpa using ha), List.filter_nil, List.nil_append]
    · rw [if_neg ha, List.filter_cons_of_pos (by simpa using ha), List.filter_nil,
        List.singleton_append]

theorem toList_foldl_renew (hc : c.Valid) {as : List α} (h : (c.keys ++ as.map key).Nodup) :
    (as.foldl Catalog.renew c).toList = c.toList ++ as := by
  rw [List.nodup_append] at h
  rw [hc.toList_foldl_renew_eq, lastOfEach_eq_self h.2.1, List.filter_eq_self.mpr]
  intro b hb
  rw [decide_eq_true_iff]
  exact fun hkey => h.2.2 _ (List.mem_map_of_mem hb) _ hkey rfl

end Valid

end SurveyTables.Catalog
