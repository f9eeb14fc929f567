import SurveyTables.Proofs.Design.Reading
import SurveyTables.Proofs.Tabulation.Layout

/-!
# From a text to a table

* `requestFaults_of_isWritable`: with a design that can be written, only variables and the weight can be
  wrong;
* `build_eq_error_iff`: a request is refused for its first fault;
* `request_error_cases`: what is left to refuse of such a design;
* `description_error_iff`, `request_error_iff`, `buildFromDescription_eq_ok_iff`: what becomes of a text;
* **`buildFromDescription_exact`**: the tables that are made from a text and the errors.
-/

namespace SurveyTables

open Expression Design Tabulation

namespace Design

variable {d : Design}

theorem flatMap_groups : Axis.all.flatMap d.groups = d.axes.flatten := by
  cases hadditional : d.additional <;> simp [Axis.all, groups, axes, hadditional]

theorem exists_mem_axes_of_mem_groups {axis : Axis} {g : Group} (hg : g ∈ d.groups axis) :
    ∃ gs ∈ d.axes, g ∈ gs := by
  have hall : axis ∈ Axis.all := by cases axis <;> decide
  have hg : g ∈ Axis.all.flatMap d.groups := List.mem_flatMap.mpr ⟨axis, hall, hg⟩
  rw [flatMap_groups] at hg
  exact List.mem_flatten.mp hg

theorem IsWritable.group_ne_nil (h : d.IsWritable) {axis : Axis} {g : Group}
    (hg : g ∈ d.groups axis) : g ≠ [] := by
  obtain ⟨gs, hgs, hg⟩ := exists_mem_axes_of_mem_groups hg
  exact (h gs hgs).group_ne_nil g hg

end Design

namespace Tabulation

variable {r : Responses} {d : Design} {o : Options}

/-! ## The faults of a request -/

theorem axisFaults_of_ne_nil {axis : Axis} (h : ∀ g ∈ d.groups axis, g ≠ []) :
    axisFaults r d axis =
      ((d.groups axis).flatten.filter fun id => !r.contains id).map .unknownVariable := by
  rw [axisFaults]
  generalize d.groups axis = gs at h
  -- the places count on while the list is taken apart
  suffices hfrom : ∀ index, (gs.zipIdx index).flatMap
      (fun entry => groupFaults r axis entry.2 entry.1) =
      (gs.flatten.filter fun id => !r.contains id).map .unknownVariable from hfrom 0
  induction gs with
  | nil => exact fun index => rfl
  | cons g gs ih =>
    intro index
    have hg : g.isEmpty = false := by simpa using h g List.mem_cons_self
    rw [List.zipIdx_cons, List.flatMap_cons, ih fun g hg => h g (List.mem_cons_of_mem _ hg),
      groupFaults, hg, List.flatten_cons, List.filter_append, List.map_append]
    rfl

/-- **With a design that can be written**, only absent variables and the weight can be wrong. -/
theorem requestFaults_of_isWritable (h : d.IsWritable) : requestFaults r d o =
    (d.axes.flatten.flatten.filter fun id => !r.contains id).map .unknownVariable ++
      weightFaults r o := by
  have hrows : d.rows.isEmpty = false := by
    simpa using (h d.rows (by simp [axes])).ne_nil
  have hcolumns : d.columns.isEmpty = false := by
    simpa using (h d.columns (by simp [axes])).ne_nil
  have haxis : ∀ axis, axisFaults r d axis =
      ((d.groups axis).flatten.filter fun id => !r.contains id).map .unknownVariable :=
    fun axis => axisFaults_of_ne_nil fun g hg => h.group_ne_nil hg
  rw [requestFaults, hrows, hcolumns, ← flatMap_groups]
  simp [Axis.all, haxis]

theorem build_eq_error_iff {e : RequestError} :
    build r d o = .error e ↔ (requestFaults r d o).head? = some e := by
  unfold build checkRequest
  cases requestFaults r d o with
  | nil => exact ⟨nofun, nofun⟩
  | cons fault faults =>
    exact ⟨fun h => congrArg some (Except.error.inj h),
      fun h => congrArg Except.error (Option.some.inj h)⟩

theorem eq_unknownWeight_of_mem_weightFaults {e : RequestError} (h : e ∈ weightFaults r o) :
    ∃ id, e = .unknownWeight id ∧ o.weight = some id ∧ r.contains id = false := by
  unfold weightFaults at h
  split at h
  · next id hweight =>
    split_ifs at h with hcontains
    · exact absurd h List.not_mem_nil
    · exact ⟨id, List.mem_singleton.mp h, hweight, Bool.eq_false_iff.mpr hcontains⟩
  · exact absurd h List.not_mem_nil

/-- **A design that can be written** is refused only for a variable of its own that is absent or for an
absent weight. -/
theorem request_error_cases (h : d.IsWritable) {e : RequestError} (he : build r d o = .error e) :
    (∃ id, e = .unknownVariable id ∧ (∃ gs ∈ d.axes, ∃ g ∈ gs, id ∈ g) ∧ r.contains id = false) ∨
      ∃ id, e = .unknownWeight id ∧ o.weight = some id ∧ r.contains id = false := by
  have hmem := List.mem_of_mem_head? (build_eq_error_iff.mp he)
  rw [requestFaults_of_isWritable h, List.mem_append] at hmem
  refine hmem.imp (fun hmem => ?_) eq_unknownWeight_of_mem_weightFaults
  obtain ⟨id, hid, rfl⟩ := List.mem_map.mp hmem
  obtain ⟨hid, hcontains⟩ := List.mem_filter.mp hid
  obtain ⟨g, hg, hid⟩ := List.mem_flatten.mp hid
  obtain ⟨gs, hgs, hg⟩ := List.mem_flatten.mp hg
  exact ⟨id, rfl, ⟨gs, hgs, g, hg, hid⟩, by simpa using hcontains⟩

/-! ## The table of a text -/

theorem buildFromDescription_eq_of_ok {text : String} {extra : Option ExtraSegments}
    (h : ofDescriptionWithWarning text = .ok (d, extra)) :
    buildFromDescription r text o =
      ((build r d o).map (Table.addWarning extra)).mapError .request := by
  rw [buildFromDescription, h]
  dsimp only
  cases build r d o <;> rfl

theorem description_error_iff {text : String} {e : DescriptionError} :
    buildFromDescription r text o = .error (.description e) ↔
      ofDescriptionWithWarning text = .error e := by
  cases hread : ofDescriptionWithWarning text with
  | error e' =>
    have hbuild : buildFromDescription r text o = .error (.description e') := by
      rw [buildFromDescription, hread]
    rw [hbuild, Except.error.injEq, Except.error.injEq, BuildError.description.injEq]
  | ok read =>
    obtain ⟨d, extra⟩ := read
    rw [buildFromDescription_eq_of_ok hread]
    cases build r d o with
    | error e' => exact ⟨nofun, nofun⟩
    | ok t => exact ⟨nofun, nofun⟩

section Described

variable {text : String} {extra : Option ExtraSegments}
  (h : ofDescriptionWithWarning text = .ok (d, extra))
include h

theorem request_error_iff {e : RequestError} :
    buildFromDescription r text o = .error (.request e) ↔ build r d o = .error e := by
  rw [buildFromDescription_eq_of_ok h]
  cases build r d o with
  | error e' =>
    show Except.error (BuildError.request e') = _ ↔ _
    rw [Except.error.injEq, Except.error.injEq, BuildError.request.injEq]
  | ok t => exact ⟨nofun, nofun⟩

theorem buildFromDescription_eq_ok_iff {t : Table Float} :
    buildFromDescription r text o = .ok t ↔ ∃ t', build r d o = .ok t' ∧
      t = { t' with warnings := extra.toList.map .extraSegments ++ t'.warnings } := by
  rw [buildFromDescription_eq_of_ok h]
  cases build r d o with
  | error e => exact ⟨nofun, fun ⟨_, hb, _⟩ => nomatch hb⟩
  | ok t' =>
    constructor
    · intro ht
      exact ⟨t', rfl, (Except.ok.inj ht).symm⟩
    · rintro ⟨t'', hb, rfl⟩
      obtain rfl := Except.ok.inj hb
      rfl

end Described

/-- **The table of a text.** If the text describes a design, only a variable or the weight can be unknown,
and the table is that of the design, with the warning of the reading in front. -/
theorem buildFromDescription_exact (r : Responses) (text : String) (o : Options) :
    (∀ e, buildFromDescription r text o = .error (.description e) ↔
      ofDescriptionWithWarning text = .error e) ∧
    ∀ d extra, ofDescriptionWithWarning text = .ok (d, extra) →
      (∀ gs ∈ d.axes, gs ≠ [] ∧ ∀ g ∈ gs, g ≠ [] ∧ ∀ id ∈ g,
        IsName id ∧ IsRun id.toList text.toList) ∧
      (∀ e, buildFromDescription r text o = .error (.request e) ↔ build r d o = .error e) ∧
      (∀ e, buildFromDescription r text o = .error (.request e) →
        (∃ id, e = .unknownVariable id ∧ (∃ gs ∈ d.axes, ∃ g ∈ gs, id ∈ g) ∧
          r.contains id = false) ∨
        ∃ id, e = .unknownWeight id ∧ o.weight = some id ∧ r.contains id = false) ∧
      ∀ t, buildFromDescription r text o = .ok t ↔ ∃ t', build r d o = .ok t' ∧
        t = { t' with warnings := extra.toList.map .extraSegments ++ t'.warnings } := by
  refine ⟨fun e => description_error_iff, fun d extra hread => ?_⟩
  obtain ⟨hwritable, hrun⟩ := isWritable_of_ofDescription hread
  refine ⟨fun gs hgs => ?_, fun e => request_error_iff hread, fun e he => ?_,
    fun t => buildFromDescription_eq_ok_iff hread⟩
  · have haxis := hwritable gs hgs
    exact ⟨haxis.ne_nil, fun g hg => ⟨haxis.group_ne_nil g hg, fun id hid =>
      ⟨haxis.isName g hg id hid, hrun gs hgs g hg id hid⟩⟩⟩
  · exact request_error_cases hwritable ((request_error_iff hread).mp he)

/-- A text with a segment too many, on the variables of the sample. -/
def sampleText : String :=
  "sex BY pet > sex by (pet) by q"

/-- The design that the sample text describes. -/
def sampleTextDesign : Design where
  rows := [["sex"]]
  columns := [["pet", "sex"]]
  additional := some [["pet"]]

theorem ofDescription_sampleText : ofDescriptionWithWarning sampleText =
    .ok (sampleTextDesign, some { found := 4, dropped := ["q"] }) := by
  cbv

theorem accepted_sampleTextDesign : Accepted sample sampleTextDesign {} :=
  accepted_of_sampleIds (by decide) (by decide) (by intro axis; cases axis <;> decide) rfl

theorem buildFromDescription_exact_sample : ∃ t, build sample sampleTextDesign {} = .ok t ∧
    ofDescriptionWithWarning sampleText =
      .ok (sampleTextDesign, some { found := 4, dropped := ["q"] }) ∧
    buildFromDescription sample sampleText {} = .ok { t with
      warnings := .extraSegments { found := 4, dropped := ["q"] } :: t.warnings } := by
  have hb := build_eq_ok_iff.mpr ⟨accepted_sampleTextDesign, rfl⟩
  have h := (buildFromDescription_exact sample sampleText {}).2 sampleTextDesign _ ofDescription_sampleText
  exact ⟨_, hb, ofDescription_sampleText, (h.2.2.2 _).mpr ⟨_, hb, rfl⟩⟩

end Tabulation

end SurveyTables
