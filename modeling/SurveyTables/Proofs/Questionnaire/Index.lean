import SurveyTables.Proofs.Questionnaire.Valid

/-!
# The index of a questionnaire

Whatever has been done to a questionnaire, its index leads from each id to the place of its variable and
from nowhere else, so that every operation does to the variables what its name says.

* `Removes`, `Valid.removes`: one variable is taken out, and the others stay in order, or, if it is not
  there, all of them stay as they are;
* `Adds`, `Valid.adds`: one variable comes to the end, in place of an older one with its id;
* `Valid.eq_iff`: questionnaires are equal if their variables, flags and separators are;
* **`reachable_isIndexed`**: all of this for the questionnaires that can come up.
-/

namespace SurveyTables.Questionnaire

/-- A variable that is there can be taken out, and the others stay in order. An id that belongs to no
variable is refused, and the questionnaire, with its index, stays as it is. -/
structure Removes (q : Questionnaire) : Prop where
  of_mem : ∀ {before v behind}, q.toList = before ++ v :: behind →
    ∃ q', q.remove v.id = (.ok v, q') ∧ q'.toList = before ++ behind ∧
      q'.hierarchical = q.hierarchical ∧ q'.separator = q.separator
  of_notMem : ∀ {id}, id ∉ q.ids → q.remove id = (.error { id }, q)

/-- A variable that is added comes behind the others, which stay in order and as they are. The variable
that it replaces is the one with its id, if there is one. -/
structure Adds (q : Questionnaire) (v : Variable) : Prop where
  left_eq : (q.addReplacing v).2 = q.add v
  toList_eq : (q.addReplacing v).2.toList = (q.toList.filter fun w => w.id != v.id) ++ [v]
  ids_eq : (q.addReplacing v).2.ids = (q.ids.filter fun id => id != v.id) ++ [v.id]
  replaced_iff : ∀ old, (q.addReplacing v).1 = some old ↔ old ∈ q.toList ∧ old.id = v.id
  isSome_replaced : (q.addReplacing v).1.isSome = true ↔ v.id ∈ q.ids
  find?_self : (q.addReplacing v).2.find? v.id = some v
  find?_of_ne : ∀ id, id ≠ v.id → (q.addReplacing v).2.find? id = q.find? id
  hierarchical_eq : (q.addReplacing v).2.hierarchical = q.hierarchical
  separator_eq : (q.addReplacing v).2.separator = q.separator

variable {q q' : Questionnaire} {v : Variable}

theorem addReplacing_eq (q : Questionnaire) (v : Variable) :
    q.addReplacing v = (q.find? v.id, q.add v) := by
  rw [addReplacing, remove_eq, get]
  cases q.find? v.id with
  | none => rfl
  | some old => rfl

namespace Valid

theorem remove_of_mem (hq : q.Valid) (hv : v ∈ q.toList) :
    q.remove v.id = (.ok v, { q with catalog := q.catalog.erase v.id }) := by
  rw [remove_eq, get, find?, hq.index.find?_of_mem hv]

theorem remove_of_notMem (hq : q.Valid) {id : String} (h : id ∉ q.ids) :
    q.remove id = (.error { id }, q) := by
  have hnone : q.find? id = none := hq.index.find?_eq_none_iff.mpr h
  rw [remove_eq, get, hnone, hq.index.erase_of_notMem h]

theorem removes (hq : q.Valid) : Removes q where
  of_mem {before v behind} h := by
    have hv : v ∈ q.toList := by
      rw [h]
      exact List.mem_append_right _ List.mem_cons_self
    refine ⟨_, hq.remove_of_mem hv, ?_, rfl, rfl⟩
    have hnodup : ((before ++ v :: behind).map Variable.id).Nodup := h ▸ hq.index.nodup
    rw [← Catalog.filter_key_ne hnodup, ← h]
    exact hq.index.toList_erase v.id
  of_notMem h := hq.remove_of_notMem h

theorem adds (hq : q.Valid) (v : Variable) : Adds q v := by
  constructor <;> rw [addReplacing_eq]
  case toList_eq => exact hq.index.toList_renew v
  case ids_eq => exact hq.index.keys_renew v
  case replaced_iff => exact fun _ => hq.index.find?_eq_some_iff
  case isSome_replaced => exact hq.index.find?_isSome_iff
  case find?_self => exact (hq.index.find?_renew v v.id).trans (if_pos rfl)
  case find?_of_ne => exact fun id hid => (hq.index.find?_renew v id).trans (if_neg (Ne.symm hid))
  case hierarchical_eq => rfl
  case separator_eq => rfl

theorem eq_iff (hq : q.Valid) (hq' : q'.Valid) :
    q = q' ↔ q.toList = q'.toList ∧ q.hierarchical = q'.hierarchical ∧ q.separator = q'.separator := by
  refine ⟨fun h => h ▸ ⟨rfl, rfl, rfl⟩, fun ⟨hvariables, hflag, hseparator⟩ => ?_⟩
  have hcatalog := (hq.index.eq_iff hq'.index).mpr hvariables
  obtain ⟨catalog, hierarchical, separator⟩ := q
  obtain ⟨catalog', hierarchical', separator'⟩ := q'
  obtain rfl : catalog = catalog' := hcatalog
  obtain rfl : hierarchical = hierarchical' := hflag
  obtain rfl : separator = separator' := hseparator
  rfl

end Valid

/-- **The index of a questionnaire never drifts.** Looking up finds what a search finds, a refused removal
changes nothing, and equal variables, flags and separators make equal questionnaires. -/
theorem reachable_isIndexed (hq : q.Reachable) :
    q.catalog.IsIndexed ∧ Removes q ∧ (∀ v, Adds q v) ∧
    ∀ q', q'.Reachable → (q = q' ↔ q.toList = q'.toList ∧ q.hierarchical = q'.hierarchical ∧
      q.separator = q'.separator) :=
  ⟨hq.valid.index.isIndexed, hq.valid.removes, hq.valid.adds, fun _ hq' => hq.valid.eq_iff hq'.valid⟩

/-- Three variables that have no more than their ids. -/
def plainVariables : List Variable :=
  [{ id := "q1" }, { id := "q2" }, { id := "q3" }]

theorem reachable_plainVariables {vs : List Variable} (h : vs.Sublist plainVariables) :
    (ofList vs).Reachable := by
  refine .ofList fun v hv => ?_
  have hmem := h.subset hv
  simp only [plainVariables, List.mem_cons, List.not_mem_nil, or_false] at hmem
  rcases hmem with rfl | rfl | rfl <;> exact .empty

/-- When the first of three variables is removed, the others move up, and it is as if it had never been
there. To remove it again is refused and changes nothing. -/
theorem reachable_isIndexed_removed : ∃ q,
    (ofList plainVariables).Reachable ∧
    (ofList plainVariables).remove "q1" = (.ok { id := "q1" }, q) ∧
    q = ofList [{ id := "q2" }, { id := "q3" }] ∧
    q.catalog.position? "q3" = some 1 ∧ q.find? "q3" = some { id := "q3" } ∧
    q.remove "q1" = (.error { id := "q1" }, q) := by
  have hreachable := reachable_plainVariables (List.Sublist.refl plainVariables)
  have hothers : (ofList [{ id := "q2" }, { id := "q3" }]).Reachable :=
    reachable_plainVariables (by simp [plainVariables])
  obtain ⟨-, hremoves, -⟩ := reachable_isIndexed hreachable
  have hsplit : (ofList plainVariables).toList =
      [] ++ { id := "q1" } :: [{ id := "q2" }, { id := "q3" }] := toList_ofList (by decide)
  obtain ⟨q, hremove, hlist, hflag, hseparator⟩ := hremoves.of_mem hsplit
  have hleft : q.Reachable := by
    have hleft := Reachable.remove "q1" hreachable
    rwa [hremove] at hleft
  obtain ⟨hindexed, hremoves', -, heq⟩ := reachable_isIndexed hleft
  refine ⟨q, hreachable, hremove, (heq _ hothers).mpr ⟨?_, hflag, hseparator⟩, ?_, ?_, ?_⟩
  · rw [hlist, toList_ofList (by decide)]
    rfl
  · rw [hindexed.position?_iff, Catalog.keys]
    show (List.map _ q.toList)[1]? = _
    rw [hlist]
    rfl
  · show q.catalog.find? "q3" = _
    rw [hindexed.find?_eq]
    show List.find? _ q.toList = _
    rw [hlist]
    rfl
  · refine hremoves'.of_notMem ?_
    show "q1" ∉ q.toList.map Variable.id
    rw [hlist]
    decide

end SurveyTables.Questionnaire
