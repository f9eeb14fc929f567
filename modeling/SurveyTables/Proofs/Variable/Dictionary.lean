import SurveyTables.Proofs.Document.RoundTrip

/-!
# Value labels as a dictionary

Value labels are a dictionary that keeps the order in which its codes came: whatever has been done to
them, a look-up finds what a search through the pairs finds.

* `Labels.IsDictionary`, `Valid.isDictionary`: look-ups are searches, and the pairs are all there is;
* `Labels.Inserts`, `Valid.inserts`: a label inserted for a code, which keeps its place if it is there;
* `Labels.Collects`, `collects_ofPairs`: the labels of pairs, of which the first with a code decides its
  place and the last its label;
* **`Labels.reachable_isDictionary`**: all of this for the value labels that can come up.
-/

namespace SurveyTables.Labels

/-- No code stands twice, and the index leads from each code to its place and from no other text. So a
look-up finds what a search through the pairs finds, and the labels can be made again of their pairs. -/
structure IsDictionary (l : Labels) : Prop where
  isIndexed : Catalog.IsIndexed l
  label?_eq : ∀ code, l.label? code = l.toList.lookup code
  ofPairs_toList : ofPairs l.toList = l
  ofDocument?_toDocument : ofDocument? l.toDocument = some l

/-- A label is inserted. A code that is there keeps its place and gives back the label that it had, and a
new code comes to the end. All other codes keep their labels and their places. -/
structure Inserts (l : Labels) (code label : String) : Prop where
  of_mem : ∀ {before old behind}, l.toList = before ++ (code, old) :: behind →
    ∃ m, l.insertReplacing code label = (some old, m) ∧ m.toList = before ++ (code, label) :: behind
  of_notMem : code ∉ l.codes →
    ∃ m, l.insertReplacing code label = (none, m) ∧ m.toList = l.toList ++ [(code, label)]
  label?_self : (l.insertReplacing code label).2.label? code = some label
  label?_of_ne : ∀ other, other ≠ code →
    (l.insertReplacing code label).2.label? other = l.label? other
  position?_self : (l.insertReplacing code label).2.position? code =
    some ((l.position? code).getD l.size)
  position?_of_ne : ∀ other, other ≠ code →
    (l.insertReplacing code label).2.position? other = l.position? other

/-- The labels of the pairs: the codes in the order in which they are seen first, each with the label that
is seen last. -/
structure Collects (pairs : List (String × String)) (l : Labels) : Prop where
  codes_eq : l.codes = (pairs.map Prod.fst).eraseDups
  label?_eq : ∀ code, l.label? code = pairs.reverse.lookup code

variable {l : Labels}

theorem lookup_eq_map_find? (pairs : List (String × String)) (code : String) :
    pairs.lookup code = (pairs.find? (Prod.fst · == code)).map Prod.snd := by
  induction pairs with
  | nil => rfl
  | cons pair pairs ih =>
    rw [List.lookup_cons, List.find?_cons, Bool.beq_comm (a := code)]
    cases pair.1 == code
    · exact ih
    · rfl

theorem isDictionary (hl : l.Valid) : l.IsDictionary where
  isIndexed := hl.isIndexed
  label?_eq code := by rw [label?, hl.find?_eq, lookup_eq_map_find?]
  ofPairs_toList := hl.ofList_toList
  ofDocument?_toDocument := ofDocument?_toDocument hl

/-! ## Inserting -/

theorem label?_insert (hl : l.Valid) (code label other : String) :
    (l.insert code label).label? other = if code = other then some label else l.label? other := by
  rw [label?, insert, hl.find?_put]
  split <;> rfl

theorem position?_insert (l : Labels) (code label other : String) :
    (l.insert code label).position? other =
      (l.position? other).or (if code = other then some l.size else none) :=
  Catalog.position?_put l (code, label) other

theorem inserts (hl : l.Valid) (code label : String) : l.Inserts code label where
  of_mem {before old behind} hsplit := by
    have hmem : (code, old) ∈ l.toList := by
      rw [hsplit]
      exact List.mem_append_right _ List.mem_cons_self
    exact ⟨_, Prod.ext (label?_of_mem hl hmem) rfl, hl.toList_put_of_split hsplit rfl⟩
  of_notMem hcode := by
    refine ⟨_, Prod.ext ((label?_eq_none_iff hl).mpr hcode) rfl, ?_⟩
    rw [insertReplacing, insert, hl.put_of_notMem hcode, Catalog.toList_push]
  label?_self := (label?_insert hl code label code).trans (if_pos rfl)
  label?_of_ne other hother := (label?_insert hl code label other).trans (if_neg (Ne.symm hother))
  position?_self := by
    rw [insertReplacing, position?_insert, if_pos rfl]
    cases l.position? code <;> rfl
  position?_of_ne other hother := by
    rw [insertReplacing, position?_insert, if_neg (Ne.symm hother), Option.or_none]

/-! ## Collecting pairs -/

theorem collects_ofPairs (pairs : List (String × String)) : Collects pairs (ofPairs pairs) where
  codes_eq := Catalog.valid_empty.keys_foldl_put pairs
  label?_eq code := by
    have hfind : (ofPairs pairs).find? code =
        (pairs.reverse.find? (Prod.fst · == code)).or ((.empty : Labels).find? code) :=
      Catalog.valid_empty.find?_foldl_put pairs code
    rw [label?, hfind, Catalog.valid_empty.find?_eq_none_iff.mpr List.not_mem_nil, Option.or_none,
      lookup_eq_map_find?]

/-- **Value labels are a dictionary that keeps the order of its codes.** A label for a code that is there
takes the place of the old one, and a new code comes to the end. -/
theorem reachable_isDictionary (hl : l.Reachable) :
    l.IsDictionary ∧ (∀ code label, l.Inserts code label) ∧
      ∀ pairs, Collects pairs (ofPairs pairs) :=
  ⟨isDictionary hl.valid, inserts hl.valid, collects_ofPairs⟩

/-- Three pairs, of which two have the same code. -/
def repeatedPairs : List (String × String) :=
  [("1", "one"), ("2", "two"), ("1", "uno")]

theorem toList_repeatedPairs : (ofPairs repeatedPairs).toList = [("1", "uno"), ("2", "two")] := by
  have hcollects := collects_ofPairs repeatedPairs
  rw [toList_eq_filterMap (valid_ofPairs _), hcollects.codes_eq]
  simp only [hcollects.label?_eq]
  decide

/-- A code that is given twice has its first place and its last label, also when it gets another one. -/
theorem reachable_isDictionary_repeatedPairs :
    (ofPairs repeatedPairs).Reachable ∧ (ofPairs repeatedPairs).label? "1" = some "uno" ∧
    ∃ l, (ofPairs repeatedPairs).insertReplacing "1" "eins" = (some "uno", l) ∧
      l.toList = [("1", "eins"), ("2", "two")] ∧ ofPairs l.toList = l := by
  have hreachable : (ofPairs repeatedPairs).Reachable := .ofPairs repeatedPairs
  obtain ⟨hdictionary, hinserts, -⟩ := reachable_isDictionary hreachable
  have hsplit : (ofPairs repeatedPairs).toList = [] ++ ("1", "uno") :: [("2", "two")] :=
    toList_repeatedPairs
  obtain ⟨l, hinsert, hlist⟩ := (hinserts "1" "eins").of_mem hsplit
  have hl : l.Reachable := by
    have hsecond : (insertReplacing (ofPairs repeatedPairs) "1" "eins").2 = l :=
      congrArg Prod.snd hinsert
    exact hsecond ▸ hreachable.insert "1" "eins"
  refine ⟨hreachable, ?_, l, hinsert, hlist, (reachable_isDictionary hl).1.ofPairs_toList⟩
  rw [hdictionary.label?_eq, toList_repeatedPairs]
  decide

end SurveyTables.Labels
