import SurveyTables.Proofs.Tabulation.ShownFiller

/-!
# Labels shown by variables and by their questions

A table may be shown with the labels of the variables or with those of the questions that they are
gathered into. A variable is then found as a question, or else among the variables of one.

* `Questionnaire.OwnsIds`: no variable has the id of the question of another one;
* `membersOf_eq_singleton`: a variable with the id of a question is all that this has;
* **`exists_lookup?_gathered_of_mem`**: a variable is found again, with its label and its value labels;
* `ShownAlike`, `Table.ShownAlike`: the texts are the same for all pairs but filler;
* **`shownAlike_gathered`**.
-/

namespace SurveyTables

namespace Questionnaire

/-- No variable has the id of the question of another one. -/
def OwnsIds (q : Questionnaire) (exceptions : List String) : Prop :=
  ∀ v ∈ q.toList, ∀ w ∈ q.toList, questionId q.separator exceptions w.id = v.id → w = v

variable {q : Questionnaire} {exceptions : List String} {v : Variable}

theorem lookup?_of_mem (hq : q.Valid) (hv : v ∈ q.toList) : q.lookup? v.id = some v := by
  rw [lookup?, find?, hq.index.find?_of_mem hv, Option.some_or]

theorem eq_of_id_eq (hq : q.Valid) {w : Variable} (hv : v ∈ q.toList) (hw : w ∈ q.toList)
    (h : w.id = v.id) : w = v :=
  List.inj_on_of_nodup_map hq.index.nodup hw hv h

/-! ## Finding a variable among the questions -/

theorem membersOf_eq_singleton (hq : q.Valid) (howns : q.OwnsIds exceptions) (hv : v ∈ q.toList)
    {first : Variable} {others : List Variable}
    (hmembers : q.membersOf exceptions v.id = first :: others) : first = v ∧ others = [] := by
  have heq : ∀ m ∈ first :: others, m = v := by
    intro m hm
    rw [← hmembers] at hm
    obtain ⟨hlisted, hquestion⟩ := List.mem_filter.mp hm
    exact howns v hv m hlisted (beq_iff_eq.mp hquestion)
  have hnodup : (first :: others).Nodup := by
    rw [← hmembers]
    exact (List.Nodup.of_map _ hq.index.nodup).filter _
  obtain rfl := heq first List.mem_cons_self
  refine ⟨rfl, List.eq_nil_iff_forall_not_mem.mpr fun m hm => ?_⟩
  rw [heq m (List.mem_cons_of_mem _ hm)] at hm
  exact (List.nodup_cons.mp hnodup).1 hm

section Gathered

variable (hq : q.Valid) (h : q.hierarchical = false) (hflat : ∀ v ∈ q.toList, v.children = [])
include hq h hflat

theorem mem_children_gathered_iff : v ∈ (q.gathered exceptions).toList.flatMap Variable.children ↔
    v ∈ q.toList := by
  have hchildren : ∀ w ∈ (q.gathered exceptions).toList,
      w.children = q.membersOf exceptions w.id := by
    intro w hw
    obtain ⟨first, others, hmembers, hstands⟩ := exists_standsFor_of_mem_gathered hq h exceptions hw
    have hfirst : first ∈ q.membersOf exceptions w.id := hmembers ▸ List.mem_cons_self
    rw [hstands.children_eq, hflat first (mem_of_mem_membersOf hfirst), List.nil_append, hmembers]
  rw [List.mem_flatMap]
  constructor
  · rintro ⟨w, hw, hv⟩
    rw [hchildren w hw] at hv
    exact mem_of_mem_membersOf hv
  · intro hv
    have hid : questionId q.separator exceptions v.id ∈ (q.gathered exceptions).ids := by
      rw [ids_gathered exceptions h, List.mem_eraseDups]
      exact List.mem_map_of_mem (List.mem_map_of_mem hv)
    obtain ⟨w, hw, hid⟩ := List.mem_map.mp hid
    refine ⟨w, hw, ?_⟩
    rw [hchildren w hw]
    exact List.mem_filter.mpr ⟨hv, beq_iff_eq.mpr hid.symm⟩

/-- **A variable is found among the questions**, with its label and its value labels. If a question has
its id, it is the only variable there; otherwise it is the only child with its id. -/
theorem exists_lookup?_gathered_of_mem (howns : q.OwnsIds exceptions) (hv : v ∈ q.toList) :
    ∃ w, (q.gathered exceptions).lookup? v.id = some w ∧ w.label = v.label ∧
      ∀ code, w.valueLabel? code = v.valueLabel? code := by
  have hvalid := hq.gathered exceptions
  by_cases hquestion : v.id ∈ (q.gathered exceptions).ids
  · obtain ⟨w, hw, hid⟩ := List.mem_map.mp hquestion
    obtain ⟨first, others, hmembers, hstands⟩ := exists_standsFor_of_mem_gathered hq h exceptions hw
    rw [hid] at hmembers
    obtain ⟨rfl, rfl⟩ := membersOf_eq_singleton hq howns hv hmembers
    refine ⟨w, hid ▸ lookup?_of_mem hvalid hw, hstands.label_eq, fun code => ?_⟩
    have hvalues : ∀ m ∈ [first], m.values.Valid :=
      fun m hm => List.mem_singleton.mp hm ▸ hq.values first hv
    -- the value labels merged into themselves
    rw [hstands.valueLabel?_eq (hvalid.values w hw) hvalues code]
    cases hlabel : first.valueLabel? code <;> simp [hlabel]
  · have hnone : (q.gathered exceptions).find? v.id = none :=
      hvalid.index.find?_eq_none_iff.mpr hquestion
    have hsome : (((q.gathered exceptions).toList.flatMap Variable.children).find?
        (·.id == v.id)).isSome = true :=
      List.find?_isSome.mpr ⟨v, (mem_children_gathered_iff hq h hflat).mpr hv, beq_self_eq_true v.id⟩
    obtain ⟨w, hw⟩ := Option.isSome_iff_exists.mp hsome
    have hlisted := (mem_children_gathered_iff hq h hflat).mp (List.mem_of_find?_eq_some hw)
    have hid := List.find?_some hw
    rw [beq_iff_eq] at hid
    obtain rfl := eq_of_id_eq hq hv hlisted hid
    exact ⟨w, by rw [lookup?, hnone, Option.none_or, hw], rfl, fun _ => rfl⟩

end Gathered

theorem shownPair_gathered (hq : q.Valid) (hflat : ∀ v ∈ q.toList, v.children = [])
    (howns : q.OwnsIds exceptions) {pair : Pair}
    (hpair : pair.1 = baseId ∨ pair.1 = totalId ∨ pair.1 ∈ q.ids) :
    (q.gathered exceptions).shownPair pair = q.shownPair pair := by
  cases h : q.hierarchical with
  | true => rw [gathered_of_hierarchical exceptions h]
  | false =>
    rw [shownPair, shownPair]
    by_cases hmarker : pair.1 = baseId ∨ pair.1 = totalId
    · rw [if_pos hmarker, if_pos hmarker]
    · rw [← or_assoc] at hpair
      obtain ⟨v, hv, hid⟩ := List.mem_map.mp (hpair.resolve_left hmarker)
      obtain ⟨w, hw, hlabel, hvalues⟩ := exists_lookup?_gathered_of_mem hq h hflat howns hv
      rw [if_neg hmarker, if_neg hmarker, ← hid, hw, lookup?_of_mem hq hv]
      simp only [hlabel, hvalues]

end Questionnaire

/-! ## Texts of paths -/

theorem Path.getElem?_flat (p : Path) (n : Nat) :
    (flat p)[2 * n]? = p[n]?.map Prod.fst ∧ (flat p)[2 * n + 1]? = p[n]?.map Prod.snd := by
  induction p generalizing n with
  | nil => simp [flat]
  | cons pair p ih =>
    have hflat : flat (pair :: p) = pair.1 :: pair.2 :: flat p := rfl
    cases n with
    | zero => simp [hflat]
    | succ n =>
      rw [hflat, show 2 * (n + 1) = 2 * n + 1 + 1 by omega]
      simpa using ih n

/-- The texts are two for each pair of the path, and the same for all pairs but filler. -/
structure ShownAlike (p : Path) (texts texts' : List String) : Prop where
  length_eq : texts.length = 2 * p.length
  length_eq' : texts'.length = 2 * p.length
  label_eq : ∀ n pair, p[n]? = some pair → pair ≠ filler → texts'[2 * n]? = texts[2 * n]?
  value_eq : ∀ n pair, p[n]? = some pair → pair ≠ filler → texts'[2 * n + 1]? = texts[2 * n + 1]?

/-- All labels are shown in order by both lists of texts, and alike. -/
structure AllShownAlike (labels : List Label) (shown shown' : List (List String)) : Prop where
  length_eq : shown.length = labels.length
  length_eq' : shown'.length = labels.length
  alike : ∀ (x : Nat) (l : Label), labels[x]? = some l → ∃ texts texts', shown[x]? = some texts ∧
    shown'[x]? = some texts' ∧ ShownAlike l.path texts texts'

theorem ShownAlike.eq {p : Path} {texts texts' : List String} (h : ShownAlike p texts texts')
    (hreal : ∀ pair ∈ p, pair ≠ filler) : texts' = texts := by
  refine List.ext_getElem? fun m => ?_
  have hm := Nat.div_add_mod m 2
  by_cases hlt : m / 2 < p.length
  · have hpair := List.getElem?_eq_getElem hlt
    have hne := hreal _ (List.getElem_mem hlt)
    rcases Nat.mod_two_eq_zero_or_one m with heven | hodd
    · rw [heven, Nat.add_zero] at hm
      rw [← hm]
      exact h.label_eq _ _ hpair hne
    · rw [hodd] at hm
      rw [← hm]
      exact h.value_eq _ _ hpair hne
  · have hlength := h.length_eq
    have hlength' := h.length_eq'
    rw [List.getElem?_eq_none (by omega), List.getElem?_eq_none (by omega)]

theorem AllShownAlike.getElem?_eq {labels : List Label} {shown shown' : List (List String)}
    (h : AllShownAlike labels shown shown') {x : Nat} {l : Label} (hx : labels[x]? = some l)
    (hreal : ∀ pair ∈ l.path, pair ≠ filler) : shown'[x]? = shown[x]? := by
  obtain ⟨texts, texts', htexts, htexts', halike⟩ := h.alike x l hx
  rw [htexts, htexts', halike.eq hreal]

/-- The rows and the columns of the table are shown alike by both questionnaires. -/
structure Table.ShownAlike {α : Type} (t : Table α) (q q' : Questionnaire) : Prop where
  rows : AllShownAlike t.rows (t.shownRows q) (t.shownRows q')
  columns : AllShownAlike t.columns (t.shownColumns q) (t.shownColumns q')

namespace Questionnaire

theorem shownAlike_shownPath {q q' : Questionnaire} {p : Path}
    (h : ∀ pair ∈ p, pair ≠ filler → q'.shownPair pair = q.shownPair pair) :
    ShownAlike p (q.shownPath p) (q'.shownPath p) where
  length_eq := q.length_shownPath p
  length_eq' := q'.length_shownPath p
  label_eq n pair hn hpair := by
    rw [shownPath, shownPath, (Path.getElem?_flat _ n).1, (Path.getElem?_flat _ n).1,
      List.getElem?_map, List.getElem?_map, hn]
    exact congrArg (some ·.1) (h pair (List.mem_of_getElem? hn) hpair)
  value_eq n pair hn hpair := by
    rw [shownPath, shownPath, (Path.getElem?_flat _ n).2, (Path.getElem?_flat _ n).2,
      List.getElem?_map, List.getElem?_map, hn]
    exact congrArg (some ·.2) (h pair (List.mem_of_getElem? hn) hpair)

theorem allShownAlike_map {q q' : Questionnaire} {labels : List Label}
    (h : ∀ l ∈ labels, ∀ pair ∈ l.path, pair ≠ filler → q'.shownPair pair = q.shownPair pair) :
    AllShownAlike labels (labels.map fun l => q.shownPath l.path)
      (labels.map fun l => q'.shownPath l.path) where
  length_eq := List.length_map _
  length_eq' := List.length_map _
  alike x l hx := by
    refine ⟨_, _, ?_, ?_, shownAlike_shownPath (h l (List.mem_of_getElem? hx))⟩
    · rw [List.getElem?_map, hx, Option.map_some]
    · rw [List.getElem?_map, hx, Option.map_some]

/-- **Tables are shown by questions as by their variables**, if these have no children, none has the id of
the question of another one, and the ids of the table are theirs, markers and filler aside. -/
theorem shownAlike_gathered {α : Type} {q : Questionnaire} (hq : q.Reachable)
    (hflat : ∀ v ∈ q.toList, v.children = []) {exceptions : List String}
    (howns : q.OwnsIds exceptions) {t : Table α}
    (ht : ∀ l ∈ t.rows ++ t.columns, ∀ pair ∈ l.path,
      pair = filler ∨ pair.1 = baseId ∨ pair.1 = totalId ∨ pair.1 ∈ q.ids) :
    t.ShownAlike q (q.gathered exceptions) := by
  have hpairs : ∀ l ∈ t.rows ++ t.columns, ∀ pair ∈ l.path, pair ≠ filler →
      (q.gathered exceptions).shownPair pair = q.shownPair pair :=
    fun l hl pair hpair hreal =>
      shownPair_gathered hq.valid hflat howns ((ht l hl pair hpair).resolve_left hreal)
  exact ⟨allShownAlike_map fun l hl => hpairs l (List.mem_append_left _ hl),
    allShownAlike_map fun l hl => hpairs l (List.mem_append_right _ hl)⟩

/-- An option of a question against a variable and another option, with a base row and a total column. -/
def optionTable : Table Float where
  rows := [Tabulation.dataLabel 1 0 ["q5_1"] ["1"], Tabulation.baseLabel 1]
  columns := [Tabulation.totalLabel 2, Tabulation.dataLabel 2 0 ["q1", "q5_2"] ["yes", "1"]]
  cells := [[some 1.0, none], [some 1.0, none]]
  statistic := .count
  caption := {}
  warnings := []

theorem ownsIds_optionVariables : (ofList optionVariables).OwnsIds [] := by
  have hids : ∀ v ∈ optionVariables, ∀ w ∈ optionVariables,
      questionId "_" [] w.id = v.id → w.id = v.id := by decide
  rw [← toList_optionVariables] at hids
  intro v hv w hw hquestion
  exact eq_of_id_eq reachable_optionVariables.valid hv hw (hids v hv w hw hquestion)

theorem shownPair_of_mem {q : Questionnaire} {v : Variable} (hq : q.Valid) (hv : v ∈ q.toList)
    (hmarker : ¬ (v.id = baseId ∨ v.id = totalId)) (code : String) : q.shownPair (v.id, code) =
      (if v.label.isEmpty then v.id else v.label, (v.valueLabel? code).getD code) := by
  rw [shownPair, if_neg hmarker, lookup?_of_mem hq hv]

theorem mem_optionVariables {v : Variable} {n : Nat} (h : optionVariables[n]? = some v) :
    v ∈ (ofList optionVariables).toList := by
  rw [toList_optionVariables]
  exact List.mem_of_getElem? h

set_option maxRecDepth 100000 in
theorem shownPair_optionVariables :
    (ofList optionVariables).shownPair ("q5_1", "1") = ("Yes?", "Yes") ∧
    (ofList optionVariables).shownPair ("q5_2", "1") = ("q5_2", "Selected") ∧
    (ofList optionVariables).shownPair ("q1", "yes") = ("q1", "yes") := by
  have hvalid := reachable_optionVariables.valid
  have hyes : (Labels.ofPairs [("1", "Yes"), ("0", "No")]).label? "1" = some "Yes" := by cbv
  have hselected : (Labels.ofPairs [("1", "Selected")]).label? "1" = some "Selected" := by cbv
  have hnone : Labels.label? .empty "yes" = none := by cbv
  have hoption := shownPair_of_mem hvalid (mem_optionVariables (n := 1) rfl) (by decide) "1"
  have hother := shownPair_of_mem hvalid (mem_optionVariables (n := 2) rfl) (by decide) "1"
  have hplain := shownPair_of_mem hvalid (mem_optionVariables (n := 0) rfl) (by decide) "yes"
  refine ⟨hoption.trans ?_, hother.trans ?_, hplain.trans ?_⟩
  · exact congrArg (fun l => ("Yes?", Option.getD l "1")) hyes
  · exact congrArg (fun l => ("q5_2", Option.getD l "1")) hselected
  · exact congrArg (fun l => ("q1", Option.getD l "yes")) hnone

/-- A table of options is shown alike, whether or not they are gathered into their question, with the
labels that there are, and with ids and values where there are none. -/
theorem shownAlike_gathered_optionVariables : (ofList optionVariables).Reachable ∧
    (ofList optionVariables).OwnsIds [] ∧
    optionTable.ShownAlike (ofList optionVariables) ((ofList optionVariables).gathered []) ∧
    (optionTable.shownRows ((ofList optionVariables).gathered []))[0]? = some ["Yes?", "Yes"] ∧
    (optionTable.shownColumns ((ofList optionVariables).gathered []))[1]? =
      some ["q1", "yes", "q5_2", "Selected"] := by
  have hids : (ofList optionVariables).ids = optionVariables.map Variable.id :=
    congrArg (List.map Variable.id) toList_optionVariables
  have hflat : ∀ v ∈ (ofList optionVariables).toList, v.children = [] := by
    rw [toList_optionVariables]
    decide
  have halike := shownAlike_gathered (t := optionTable) reachable_optionVariables hflat
    ownsIds_optionVariables (by rw [hids]; decide)
  obtain ⟨hoption, hselected, hplain⟩ := shownPair_optionVariables
  refine ⟨reachable_optionVariables, ownsIds_optionVariables, halike, ?_, ?_⟩
  · refine (halike.rows.getElem?_eq (x := 0) rfl (by decide)).trans ?_
    show some (Path.flat [(ofList optionVariables).shownPair ("q5_1", "1")]) = _
    rw [hoption]
    rfl
  · refine (halike.columns.getElem?_eq (x := 1) rfl (by decide)).trans ?_
    show some (Path.flat [(ofList optionVariables).shownPair ("q1", "yes"),
      (ofList optionVariables).shownPair ("q5_2", "1")]) = _
    rw [hplain, hselected]
    rfl

end Questionnaire

end SurveyTables
