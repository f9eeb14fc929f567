import SurveyTables.Proofs.Design.Splitting
import SurveyTables.Proofs.Expression.Choices
import SurveyTables.Proofs.Variable.Record

/-!
# What a description gives

* `WellFormed.isAxis`: a well-formed expression stands for groups that can be written;
* `Splits.isRun`: no segment begins or ends within a name;
* `readAxis_eq_ok`, **`isWritable_of_ofDescription`**: the design that is read from a text can be written,
  and its ids are longest runs of name characters in the text.
-/

namespace SurveyTables

namespace Expression

theorem WellFormed.isAxis {e : Expression} (h : e.WellFormed) : IsAxis e.groups where
  ne_nil := h.hasItems.groups_ne_nil.1
  group_ne_nil := h.hasItems.groups_ne_nil.2
  isName g hg id hid := h.isName id ((sublist_ids_of_mem_groups e g hg).subset hid)

theorem isRun_of_ofText {text : String} {e : Expression} (h : ofText text = .ok e) :
    ∀ id ∈ e.ids, IsRun id.toList text.toList := by
  obtain ⟨s, hs, rfl⟩ := (ofText_eq_ok_iff text e).mp h
  intro id hid
  exact (isRun_of_mem_tokens (hs ▸ SumTree.mem_ids_iff.mp hid)).2

end Expression

namespace Design

open Expression

/-! ## Segments in their text -/

theorem endsName_space (cs : List Char) : EndsName (' ' :: cs) :=
  endsName_cons.mpr rfl

/-- A run of a segment is one of the text: no segment begins or ends within a name. -/
theorem Splits.isRun {w segment cs : List Char} {parts separators : List (List Char)}
    (h : Splits cs parts separators) (hmem : segment ∈ parts) (hrun : IsRun w segment) :
    IsRun w cs := by
  induction h with
  | whole _ =>
    rw [List.mem_singleton] at hmem
    rwa [← hmem]
  | @cut s p rest _ _ _ hp _ _ ih =>
    obtain ⟨b, y, -, -, rfl⟩ := isSeparator_iff.mp hp
    rw [List.append_assoc]
    rcases List.mem_cons.mp hmem with rfl | hmem
    · have hbefore : EndsName ([] : List Char).reverse := endsName_nil
      exact hrun.append hbefore (endsName_space _)
    · have hbefore : EndsName (s ++ [' ', b, y, ' ']).reverse := by
        rw [List.reverse_append]
        exact endsName_space _
      have hrun := (ih hmem).append hbefore endsName_nil
      rwa [List.append_nil, List.append_assoc] at hrun

/-! ## The design of a text -/

theorem readAxis_eq_ok {axis : Axis} {segment : List Char} {gs : List Group}
    (h : readAxis axis segment = .ok gs) :
    IsAxis gs ∧ ∀ g ∈ gs, ∀ id ∈ g, IsRun id.toList segment := by
  unfold readAxis at h
  split at h
  · next e he =>
    obtain rfl := Except.ok.inj h
    refine ⟨(wellFormed_of_ofText he).isAxis, fun g hg id hid => ?_⟩
    have hrun := isRun_of_ofText he id ((sublist_ids_of_mem_groups e g hg).subset hid)
    rwa [String.toList_ofList] at hrun
  · exact nomatch h

theorem exists_readAxis_of_ofSegments {all : List (List Char)} {d : Design}
    (h : ofSegments all = .ok d) :
    ∀ gs ∈ d.axes, ∃ axis, ∃ segment ∈ all, readAxis axis segment = .ok gs := by
  match all with
  | [] | [_] => exact nomatch h
  | rows :: columns :: others =>
    rw [ofSegments] at h
    obtain ⟨rowGroups, hrows, h⟩ := exists_of_bind_eq_ok h
    obtain ⟨columnGroups, hcolumns, h⟩ := exists_of_bind_eq_ok h
    cases others with
    | nil =>
      obtain rfl := Except.ok.inj h
      intro gs hgs
      simp only [axes, Option.toList_none, List.mem_cons, List.not_mem_nil, or_false] at hgs
      rcases hgs with rfl | rfl
      · exact ⟨.rows, rows, by simp, hrows⟩
      · exact ⟨.columns, columns, by simp, hcolumns⟩
    | cons additional others =>
      obtain ⟨additionalGroups, hadditional, h⟩ := exists_of_bind_eq_ok h
      obtain rfl := Except.ok.inj h
      intro gs hgs
      simp only [axes, Option.toList_some, List.mem_cons, List.not_mem_nil, or_false] at hgs
      rcases hgs with rfl | rfl | rfl
      · exact ⟨.rows, rows, by simp, hrows⟩
      · exact ⟨.columns, columns, by simp, hcolumns⟩
      · exact ⟨.additional, additional, by simp, hadditional⟩

/-- **The design of a text** can be written, and its ids are longest runs of name characters in the
text. -/
theorem isWritable_of_ofDescription {text : String} {d : Design} {extra : Option ExtraSegments}
    (h : ofDescriptionWithWarning text = .ok (d, extra)) :
    d.IsWritable ∧ ∀ gs ∈ d.axes, ∀ g ∈ gs, ∀ id ∈ g, IsRun id.toList text.toList := by
  rw [ofDescriptionWithWarning] at h
  obtain ⟨design, hdesign, h⟩ := exists_of_bind_eq_ok h
  obtain ⟨rfl, -⟩ := Prod.mk.inj (Except.ok.inj h)
  have hread := exists_readAxis_of_ofSegments hdesign
  constructor
  · intro gs hgs
    obtain ⟨axis, segment, -, hok⟩ := hread gs hgs
    exact (readAxis_eq_ok hok).1
  · intro gs hgs g hg id hid
    obtain ⟨axis, segment, hmem, hok⟩ := hread gs hgs
    obtain ⟨separators, hsplits⟩ := splits_segments text.toList
    exact hsplits.isRun hmem ((readAxis_eq_ok hok).2 g hg id hid)

end Design

end SurveyTables
