import SurveyTables.Proofs.Variable.Dictionary

/-!
# Merged value labels

Value labels merged into others override them in order: the codes that are there keep their places, the
new ones follow, and where both have a code the label that is merged in counts.

* `Labels.Overrides`, `overrides_merge`: the codes and the labels of two merged;
* `merge_assoc`: of three, the first two or the last two may be merged first;
* `merge_self`, `merge_empty`, `empty_merge`: what changes nothing;
* **`Labels.reachable_merges`**: all of this for the value labels that can come up.
-/

namespace SurveyTables.Labels

/-- The labels `l` with those of `m` laid over them: the codes of `l`, then those that only `m` has, each
with the label of `m` if there is one and otherwise with that of `l`. -/
structure Overrides (l m merged : Labels) : Prop where
  codes_eq : merged.codes = l.codes ++ m.codes.filter fun code => code ∉ l.codes
  label?_eq : ∀ code, merged.label? code = (m.label? code).or (l.label? code)
  mem_iff : ∀ code label, (code, label) ∈ merged.toList ↔
    (code, label) ∈ m.toList ∨ code ∉ m.codes ∧ (code, label) ∈ l.toList

variable {k l m : Labels}

theorem nodup_codes (hl : l.Valid) : l.codes.Nodup :=
  hl.nodup

theorem codes_merge_eq_append (hl : l.Valid) (hm : m.Valid) :
    (l.merge m).codes = l.codes ++ m.codes.filter fun code => code ∉ l.codes := by
  have hnew : m.codes.removeAll l.codes = m.codes.filter fun code => code ∉ l.codes := by
    simp [List.removeAll]
  rw [codes_merge hl, List.eraseDups_append, hnew, Catalog.eraseDups_eq_self (nodup_codes hl),
    Catalog.eraseDups_eq_self ((nodup_codes hm).filter _)]

theorem overrides_merge (hl : l.Valid) (hm : m.Valid) : Overrides l m (l.merge m) where
  codes_eq := codes_merge_eq_append hl hm
  label?_eq := label?_merge hl hm
  mem_iff code label := by
    rw [mem_toList_iff (valid_merge hl m), mem_toList_iff hl, mem_toList_iff hm, label?_merge hl hm,
      Option.or_eq_some_iff, label?_eq_none_iff hm]

theorem merge_assoc (hk : k.Valid) (hl : l.Valid) (hm : m.Valid) :
    (k.merge l).merge m = k.merge (l.merge m) := by
  have hkl := valid_merge hk l
  have hlm := valid_merge hl m
  refine (eq_iff_label? (valid_merge hkl m) (valid_merge hk _)).mpr ⟨?_, fun code => ?_⟩
  · have hnew : (m.codes.filter fun code => code ∉ (k.merge l).codes) =
        (m.codes.filter fun code => code ∉ l.codes).filter fun code => code ∉ k.codes := by
      rw [List.filter_filter]
      refine List.filter_congr fun code _ => ?_
      -- a code is new to merged labels just if it is new to both
      simp [codes_merge hk, not_or, Bool.decide_and]
    rw [codes_merge_eq_append hkl hm, hnew, codes_merge_eq_append hk hl,
      codes_merge_eq_append hk hlm, codes_merge_eq_append hl hm, List.filter_append,
      List.append_assoc]
  · rw [label?_merge hkl hm, label?_merge hk hl, label?_merge hk hlm, label?_merge hl hm,
      Option.or_assoc]

theorem merge_self (hl : l.Valid) : l.merge l = l := by
  refine (eq_iff_label? (valid_merge hl l) hl).mpr ⟨?_, fun code => ?_⟩
  · have hnone : (l.codes.filter fun code => code ∉ l.codes) = [] := by simp
    rw [codes_merge_eq_append hl hl, hnone, List.append_nil]
  · rw [label?_merge hl hl, Option.or_self]

theorem merge_empty (l : Labels) : l.merge .empty = l :=
  rfl

theorem empty_merge (hl : l.Valid) : merge .empty l = l :=
  hl.ofList_toList

theorem toList_merge_ofPairs (pairs pairs' : List (String × String)) :
    ((ofPairs pairs).merge (ofPairs pairs')).toList =
      ((pairs.map Prod.fst).eraseDups ++ (pairs'.map Prod.fst).eraseDups.filter fun code =>
        code ∉ (pairs.map Prod.fst).eraseDups).filterMap fun code =>
          ((pairs'.reverse.lookup code).or (pairs.reverse.lookup code)).map (Prod.mk code) := by
  have hover := overrides_merge (valid_ofPairs pairs) (valid_ofPairs pairs')
  rw [toList_eq_filterMap (valid_merge (valid_ofPairs pairs) _), hover.codes_eq]
  simp only [hover.label?_eq, (collects_ofPairs _).codes_eq, (collects_ofPairs _).label?_eq]

/-- **Merging value labels is an ordered override**, which is associative and idempotent. -/
theorem reachable_merges (hk : k.Reachable) (hl : l.Reachable) (hm : m.Reachable) :
    Overrides k l (k.merge l) ∧ (k.merge l).merge m = k.merge (l.merge m) ∧
    k.merge k = k ∧ (k.merge l).merge l = k.merge l ∧ k.merge .empty = k ∧ merge .empty k = k := by
  refine ⟨overrides_merge hk.valid hl.valid, merge_assoc hk.valid hl.valid hm.valid,
    merge_self hk.valid, ?_, merge_empty k, empty_merge hk.valid⟩
  rw [merge_assoc hk.valid hl.valid hl.valid, merge_self hl.valid]

/-- Two codes, of which the second is relabelled by `newLabels`. -/
def oldLabels : Labels :=
  ofPairs [("1", "a"), ("2", "b")]

/-- Labels of which one code is old and one new. -/
def newLabels : Labels :=
  ofPairs [("2", "B"), ("3", "c")]

/-- The common code keeps its place and takes the new label, and merging the other way round gives
something else. -/
theorem reachable_merges_newLabels :
    (oldLabels.merge newLabels).toList = [("1", "a"), ("2", "B"), ("3", "c")] ∧
    (oldLabels.merge newLabels).merge oldLabels = oldLabels.merge (newLabels.merge oldLabels) ∧
    newLabels.merge oldLabels ≠ oldLabels.merge newLabels := by
  have hold : oldLabels.Reachable := .ofPairs _
  have hnew : newLabels.Reachable := .ofPairs _
  obtain ⟨-, hassoc, -⟩ := reachable_merges hold hnew hold
  refine ⟨?_, hassoc, fun h => ?_⟩
  · rw [oldLabels, newLabels, toList_merge_ofPairs]
    decide
  · have hlists := congrArg Catalog.toList h
    rw [oldLabels, newLabels, toList_merge_ofPairs, toList_merge_ofPairs] at hlists
    exact absurd hlists (by decide)

end SurveyTables.Labels
