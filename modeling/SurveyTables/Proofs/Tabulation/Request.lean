import SurveyTables.Tabulation.Build

/-!
# Requests that are accepted

* `Accepted`: nothing is wrong with a request;
* `requestFaults_eq_nil_iff`: then no fault is found, and only then;
* `build_eq_ok_iff`: the tables that are made.
-/

namespace SurveyTables.Tabulation

/-- There are rows and columns, every group has variables, and these and the weight are columns of the
responses. -/
structure Accepted (r : Responses) (d : Design) (o : Options) : Prop where
  rows_ne_nil : d.rows ≠ []
  columns_ne_nil : d.columns ≠ []
  group : ∀ axis, ∀ g ∈ d.groups axis, g ≠ [] ∧ ∀ id ∈ g, r.contains id = true
  weight : ∀ id, o.weight = some id → r.contains id = true

variable {r : Responses} {d : Design} {o : Options}

theorem groupFaults_eq_nil_iff {axis : Axis} {i : Nat} {g : Group} :
    groupFaults r axis i g = [] ↔ g ≠ [] ∧ ∀ id ∈ g, r.contains id = true := by
  unfold groupFaults
  by_cases hg : g = []
  · simp [hg]
  · simp [hg]

theorem axisFaults_eq_nil_iff {axis : Axis} :
    axisFaults r d axis = [] ↔ ∀ g ∈ d.groups axis, g ≠ [] ∧ ∀ id ∈ g, r.contains id = true := by
  simp only [axisFaults, List.flatMap_eq_nil_iff, groupFaults_eq_nil_iff,
    List.mem_zipIdx_iff_getElem?]
  constructor
  · intro h g hg
    obtain ⟨i, hi⟩ := List.mem_iff_getElem?.mp hg
    exact h (g, i) hi
  · intro h entry hentry
    exact h entry.1 (List.mem_of_getElem? hentry)

theorem weightFaults_eq_nil_iff :
    weightFaults r o = [] ↔ ∀ id, o.weight = some id → r.contains id = true := by
  unfold weightFaults
  cases o.weight <;> simp

theorem requestFaults_eq_nil_iff : requestFaults r d o = [] ↔ Accepted r d o := by
  have haxes : Axis.all.flatMap (axisFaults r d) = [] ↔
      ∀ axis, ∀ g ∈ d.groups axis, g ≠ [] ∧ ∀ id ∈ g, r.contains id = true := by
    simp only [List.flatMap_eq_nil_iff, axisFaults_eq_nil_iff]
    exact ⟨fun h axis => h axis (by cases axis <;> decide), fun h axis _ => h axis⟩
  unfold requestFaults
  rw [List.append_eq_nil_iff, List.append_eq_nil_iff, List.append_eq_nil_iff, haxes,
    weightFaults_eq_nil_iff]
  constructor
  · rintro ⟨⟨⟨hr, hc⟩, hg⟩, hw⟩
    exact ⟨by simpa using hr, by simpa using hc, hg, hw⟩
  · intro h
    refine ⟨⟨⟨?_, ?_⟩, h.group⟩, h.weight⟩
    · simpa using h.rows_ne_nil
    · simpa using h.columns_ne_nil

theorem build_eq_ok_iff {t : Table Float} :
    build r d o = .ok t ↔ Accepted r d o ∧ t = tabulate r d o (weights r d o) := by
  rw [← requestFaults_eq_nil_iff]
  unfold build checkRequest
  cases requestFaults r d o with
  | nil =>
    constructor
    · intro h
      exact ⟨rfl, (Except.ok.inj h).symm⟩
    · rintro ⟨-, rfl⟩
      rfl
  | cons fault faults =>
    constructor
    · intro h
      exact nomatch h
    · rintro ⟨h, -⟩
      exact nomatch h

end SurveyTables.Tabulation
