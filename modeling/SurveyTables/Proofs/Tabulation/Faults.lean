import SurveyTables.Proofs.Catalog.Updates
import SurveyTables.Proofs.Tabulation.FromDescription

/-!
# The fault that is reported

A request that is wrong in several ways is refused for the first fault in the order of the axes and of
the groups on them. A request that is accepted has a warning for all that it asks for and does not get.

* `Spot`, `groupAt?`, `Earlier`: where the groups of a design stand;
* `GroupFault`, `FirstFault`: the first fault of a group and of a request;
* `placed`, `head?_flatMap_placed_iff`: the groups one after the other;
* **`head?_requestFaults_iff`**: the fault that is found first;
* `IsRequested`, `isRequested_eraseDups`: the statistics that are asked for and not made;
* **`build_validates`**.
-/

namespace SurveyTables

/-- How many axes are declared before. -/
def Axis.place : Axis → Nat
  | .rows => 0
  | .columns => 1
  | .additional => 2

namespace Tabulation

variable {r : Responses} {d : Design} {o : Options} {e : RequestError} {g : Group}

/-! ## Faults -/

/-- An axis and a place on it. -/
structure Spot where
  axis : Axis
  index : Nat

/-- The group at the spot. -/
def groupAt? (d : Design) (p : Spot) : Option Group :=
  (d.groups p.axis)[p.index]?

/-- In front of another spot: on an axis that is declared before, or before it on the same axis. -/
def Spot.Earlier (p q : Spot) : Prop :=
  p.axis.place < q.axis.place ∨ p.axis = q.axis ∧ p.index < q.index

/-- The group has variables, and all of them are columns. -/
def IsSound (r : Responses) (g : Group) : Prop :=
  g ≠ [] ∧ ∀ id ∈ g, id ∈ r.ids

/-- What is wrong with the group at a spot: it has no variables, or the first of its variables that is
no column. -/
inductive GroupFault (r : Responses) (p : Spot) : Group → RequestError → Prop where
  | empty : GroupFault r p [] (.emptyGroup p.axis p.index)
  | unknown {before after : Group} {id : String} (hbefore : ∀ v ∈ before, v ∈ r.ids)
    (hid : id ∉ r.ids) : GroupFault r p (before ++ id :: after) (.unknownVariable id)

/-- The fault of a request that has no other before it. -/
inductive FirstFault (r : Responses) (d : Design) (o : Options) : RequestError → Prop where
  | rows (h : d.rows = []) : FirstFault r d o .emptyRows
  | columns (hrows : d.rows ≠ []) (h : d.columns = []) : FirstFault r d o .emptyColumns
  | group (hrows : d.rows ≠ []) (hcolumns : d.columns ≠ []) {p : Spot} {g : Group} {e : RequestError}
    (hg : groupAt? d p = some g)
    (hearlier : ∀ q h, groupAt? d q = some h → q.Earlier p → IsSound r h)
    (he : GroupFault r p g e) : FirstFault r d o e
  | weight (hrows : d.rows ≠ []) (hcolumns : d.columns ≠ [])
    (hgroups : ∀ q h, groupAt? d q = some h → IsSound r h) {id : String} (h : o.weight = some id)
    (hid : id ∉ r.ids) : FirstFault r d o (.unknownWeight id)

/-! ## The groups one after the other -/

/-- The groups with their spots, in the order in which they are checked. -/
def placed (d : Design) : List (Spot × Group) :=
  Axis.all.flatMap fun axis => (d.groups axis).zipIdx.map fun entry => (⟨axis, entry.2⟩, entry.1)

theorem mem_placed {p : Spot} : (p, g) ∈ placed d ↔ groupAt? d p = some g := by
  obtain ⟨axis, index⟩ := p
  have hall : axis ∈ Axis.all := by cases axis <;> decide
  rw [placed, List.mem_flatMap, groupAt?]
  constructor
  · rintro ⟨axis', -, hmem⟩
    obtain ⟨entry, hentry, heq⟩ := List.mem_map.mp hmem
    obtain ⟨hspot, rfl⟩ := Prod.mk.inj heq
    obtain ⟨rfl, rfl⟩ := Spot.mk.inj hspot
    exact List.mem_zipIdx_iff_getElem?.mp hentry
  · intro hg
    exact ⟨axis, hall, List.mem_map.mpr ⟨(g, index), List.mem_zipIdx_iff_getElem?.mpr hg, rfl⟩⟩

theorem pairwise_zipIdx (gs : List Group) (first : Nat) :
    (gs.zipIdx first).Pairwise fun a b => a.2 < b.2 := by
  induction gs generalizing first with
  | nil => exact List.Pairwise.nil
  | cons g gs ih =>
    rw [List.zipIdx_cons, List.pairwise_cons]
    exact ⟨fun entry hentry => List.le_snd_of_mem_zipIdx hentry, ih (first + 1)⟩

theorem pairwise_placed (d : Design) : (placed d).Pairwise fun a b => a.1.Earlier b.1 := by
  rw [placed, List.pairwise_flatMap]
  constructor
  · intro axis _
    rw [List.pairwise_map]
    exact (pairwise_zipIdx (d.groups axis) 0).imp fun hlt => .inr ⟨rfl, hlt⟩
  · have haxes : Axis.all.Pairwise fun a b => a.place < b.place := by decide
    refine haxes.imp fun {axis axis'} hlt a ha b hb => .inl ?_
    obtain ⟨entry, -, rfl⟩ := List.mem_map.mp ha
    obtain ⟨entry', -, rfl⟩ := List.mem_map.mp hb
    exact hlt

theorem Spot.Earlier.asymm {p q : Spot} (h : p.Earlier q) : ¬ q.Earlier p := by
  rintro h'
  rcases h with h | ⟨heq, h⟩ <;> rcases h' with h' | ⟨heq', h'⟩
  · exact lt_asymm h h'
  · rw [heq'] at h
    exact lt_irrefl _ h
  · rw [heq] at h'
    exact lt_irrefl _ h'
  · exact lt_asymm h h'

theorem mem_before_iff {before after : List (Spot × Group)} {a x : Spot × Group}
    (h : placed d = before ++ a :: after) : x ∈ before ↔ x ∈ placed d ∧ x.1.Earlier a.1 := by
  have hpairwise := pairwise_placed d
  rw [h, List.pairwise_append, List.pairwise_cons] at hpairwise
  obtain ⟨-, ⟨hafter, -⟩, hbefore⟩ := hpairwise
  rw [h, List.mem_append, List.mem_cons]
  constructor
  · exact fun hx => ⟨.inl hx, hbefore x hx a List.mem_cons_self⟩
  · rintro ⟨hx | rfl | hx, hearlier⟩
    · exact hx
    · exact absurd hearlier hearlier.asymm
    · exact absurd hearlier (hafter x hx).asymm

/-! ## The fault that is found first -/

theorem flatMap_axisFaults (r : Responses) (d : Design) : Axis.all.flatMap (axisFaults r d) =
    (placed d).flatMap fun entry => groupFaults r entry.1.axis entry.1.index entry.2 := by
  rw [placed, List.flatMap_assoc]
  refine List.flatMap_congr fun axis _ => ?_
  rw [axisFaults, List.flatMap_map]

section

variable (hr : r.Valid)
include hr

theorem contains_iff_mem_ids {id : String} : r.contains id = true ↔ id ∈ r.ids :=
  hr.index.contains_iff

theorem head?_groupFaults_iff {p : Spot} :
    (groupFaults r p.axis p.index g).head? = some e ↔ GroupFault r p g e := by
  have hcontains (id : String) : (!r.contains id) = true ↔ id ∉ r.ids := by
    rw [Bool.not_eq_true', ← Bool.not_eq_true, contains_iff_mem_ids hr]
  unfold groupFaults
  split_ifs with hempty
  · obtain rfl := List.isEmpty_iff.mp hempty
    constructor
    · intro h
      obtain rfl := Option.some.inj h
      exact .empty
    · intro h
      generalize hg : ([] : Group) = g at h
      cases h with
      | empty => rfl
      | @unknown before => exact absurd hg (by simp)
  · rw [List.head?_map, List.head?_filter, Option.map_eq_some_iff]
    simp only [List.find?_eq_some_iff_append, hcontains]
    constructor
    · rintro ⟨id, ⟨hid, before, after, rfl, hbefore⟩, rfl⟩
      exact .unknown (fun v hv => by simpa [contains_iff_mem_ids hr] using hbefore v hv) hid
    · intro h
      cases h with
      | empty => exact absurd rfl hempty
      | @unknown before after id hbefore hid =>
        refine ⟨id, ⟨hid, before, after, rfl, fun v hv => ?_⟩, rfl⟩
        simpa [contains_iff_mem_ids hr] using hbefore v hv

theorem groupFaults_eq_nil_iff_isSound {p : Spot} :
    groupFaults r p.axis p.index g = [] ↔ IsSound r g := by
  rw [groupFaults_eq_nil_iff, IsSound]
  simp only [contains_iff_mem_ids hr]

/-- The first fault of the groups is that of a group in front of which all groups are sound. -/
theorem head?_flatMap_axisFaults_iff :
    (Axis.all.flatMap (axisFaults r d)).head? = some e ↔ ∃ p g, groupAt? d p = some g ∧
      (∀ q h, groupAt? d q = some h → q.Earlier p → IsSound r h) ∧ GroupFault r p g e := by
  have hnone (entry : Spot × Group) :
      (groupFaults r entry.1.axis entry.1.index entry.2).head? = none ↔ IsSound r entry.2 := by
    rw [List.head?_eq_none_iff, groupFaults_eq_nil_iff_isSound hr]
  rw [flatMap_axisFaults, List.head?_flatMap, List.findSome?_eq_some_iff]
  simp only [head?_groupFaults_iff hr, hnone]
  constructor
  · rintro ⟨before, ⟨p, g⟩, after, hsplit, he, hbefore⟩
    refine ⟨p, g, mem_placed.mp (hsplit ▸ List.mem_append_right _ List.mem_cons_self), ?_, he⟩
    intro q h hq hearlier
    exact hbefore (q, h) ((mem_before_iff hsplit).mpr ⟨mem_placed.mpr hq, hearlier⟩)
  · rintro ⟨p, g, hg, hearlier, he⟩
    obtain ⟨before, after, hsplit⟩ := List.append_of_mem (mem_placed.mpr hg)
    refine ⟨before, (p, g), after, hsplit, he, fun entry hentry => ?_⟩
    obtain ⟨hmem, hlt⟩ := (mem_before_iff hsplit).mp hentry
    exact hearlier entry.1 entry.2 (mem_placed.mp hmem) hlt

theorem flatMap_axisFaults_eq_nil_iff :
    Axis.all.flatMap (axisFaults r d) = [] ↔ ∀ q h, groupAt? d q = some h → IsSound r h := by
  rw [flatMap_axisFaults, List.flatMap_eq_nil_iff]
  constructor
  · intro h q g hq
    exact (groupFaults_eq_nil_iff_isSound hr).mp (h (q, g) (mem_placed.mpr hq))
  · intro h entry hentry
    exact (groupFaults_eq_nil_iff_isSound hr).mpr (h entry.1 entry.2 (mem_placed.mp hentry))

theorem head?_weightFaults_iff : (weightFaults r o).head? = some e ↔
    ∃ id, o.weight = some id ∧ id ∉ r.ids ∧ e = .unknownWeight id := by
  unfold weightFaults
  cases o.weight with
  | none => exact iff_of_false nofun nofun
  | some id =>
    dsimp only
    split_ifs with hcontains
    · rw [contains_iff_mem_ids hr] at hcontains
      refine iff_of_false nofun ?_
      rintro ⟨id', hid, hnone, -⟩
      exact hnone (Option.some.inj hid ▸ hcontains)
    · rw [contains_iff_mem_ids hr] at hcontains
      rw [List.head?_cons, Option.some_inj]
      constructor
      · rintro rfl
        exact ⟨id, rfl, hcontains, rfl⟩
      · rintro ⟨id', hid, -, rfl⟩
        rw [Option.some.inj hid]

/-- **The fault that is found first** is the first one. -/
theorem head?_requestFaults_iff : (requestFaults r d o).head? = some e ↔ FirstFault r d o e := by
  have hfault (gs : List Group) (fault : RequestError) :
      (if gs.isEmpty then [fault] else []).head? = some e ↔ gs = [] ∧ e = fault := by
    cases gs <;> simp [eq_comm]
  have hnone (gs : List Group) (fault : RequestError) :
      (if gs.isEmpty then [fault] else []).head? = none ↔ gs ≠ [] := by
    cases gs <;> simp
  rw [requestFaults, List.head?_append, List.head?_append, List.head?_append]
  simp only [Option.or_eq_some_iff, Option.or_eq_none_iff, hfault, hnone,
    head?_flatMap_axisFaults_iff hr, head?_weightFaults_iff hr]
  rw [List.head?_eq_none_iff, flatMap_axisFaults_eq_nil_iff hr]
  constructor
  · rintro (((⟨hrows, rfl⟩ | ⟨hrows, hcolumns, rfl⟩) | ⟨⟨hrows, hcolumns⟩, p, g, hg, hearlier, he⟩) |
      ⟨⟨⟨hrows, hcolumns⟩, hgroups⟩, id, hweight, hid, rfl⟩)
    · exact .rows hrows
    · exact .columns hrows hcolumns
    · exact .group hrows hcolumns hg hearlier he
    · exact .weight hrows hcolumns hgroups hweight hid
  · intro h
    cases h with
    | rows hrows => exact .inl (.inl (.inl ⟨hrows, rfl⟩))
    | columns hrows hcolumns => exact .inl (.inl (.inr ⟨hrows, hcolumns, rfl⟩))
    | group hrows hcolumns hg hearlier he =>
      exact .inl (.inr ⟨⟨hrows, hcolumns⟩, _, _, hg, hearlier, he⟩)
    | weight hrows hcolumns hgroups hweight hid =>
      exact .inr ⟨⟨⟨hrows, hcolumns⟩, hgroups⟩, _, hweight, hid, rfl⟩

theorem accepted_iff : Accepted r d o ↔ d.rows ≠ [] ∧ d.columns ≠ [] ∧
    (∀ axis, ∀ g ∈ d.groups axis, IsSound r g) ∧ ∀ id, o.weight = some id → id ∈ r.ids := by
  simp only [IsSound, ← contains_iff_mem_ids hr]
  exact ⟨fun h => ⟨h.rows_ne_nil, h.columns_ne_nil, h.group, h.weight⟩,
    fun ⟨hrows, hcolumns, hgroup, hweight⟩ => ⟨hrows, hcolumns, hgroup, hweight⟩⟩

end

theorem exists_build_eq_error_iff : (∃ e, build r d o = .error e) ↔ ¬ Accepted r d o := by
  simp only [build_eq_error_iff, ← Option.isSome_iff_exists, List.isSome_head?,
    ← requestFaults_eq_nil_iff]

/-! ## Warnings -/

/-- The statistics that are asked for besides counts, each once, in the order in which they are asked for
first. -/
structure IsRequested (o : Options) (stats : List Statistic) : Prop where
  mem_iff : ∀ s, s ∈ stats ↔ s ∈ o.statistics ∧ s ≠ .count
  nodup : stats.Nodup
  ordered : stats.Pairwise fun s t => o.statistics.idxOf s < o.statistics.idxOf t

theorem isRequested_eraseDups (o : Options) :
    IsRequested o (o.statistics.filter (· != .count)).eraseDups where
  mem_iff s := by rw [List.mem_eraseDups, List.mem_filter, bne_iff_ne]
  nodup := Catalog.nodup_eraseDups _
  ordered := by
    rw [Catalog.eraseDups_filter]
    exact (Catalog.pairwise_idxOf_eraseDups _).filter _

/-! ## The answer to a request -/

/-- **A request is refused just if something is wrong with it, for its first fault.** Else it has a warning
for an additional axis and one for each statistic that is not made, and no other. -/
theorem build_validates (hr : r.Reachable) (d : Design) (o : Options) :
    ((∃ e, build r d o = .error e) ↔ d.rows = [] ∨ d.columns = [] ∨
      (∃ axis, ∃ g ∈ d.groups axis, g = [] ∨ ∃ id ∈ g, id ∉ r.ids) ∨
      ∃ id, o.weight = some id ∧ id ∉ r.ids) ∧
    (∀ e, build r d o = .error e ↔ FirstFault r d o e) ∧
    ∀ t, build r d o = .ok t → ∃ stats, IsRequested o stats ∧
      t.warnings = (if d.additional.isSome then [.additionalAxis] else []) ++ stats.map .notComputed := by
  refine ⟨?_, fun e => ?_, fun t ht => ?_⟩
  · rw [exists_build_eq_error_iff, accepted_iff hr.valid]
    simp only [IsSound]
    grind
  · rw [build_eq_error_iff, head?_requestFaults_iff hr.valid]
  · obtain ⟨ha, rfl⟩ := build_eq_ok_iff.mp ht
    exact ⟨_, isRequested_eraseDups o, warnings_tabulate hr.valid ha⟩

/-- An empty group, a variable and a weight that are absent. -/
def faultyDesign : Design where
  rows := [["sex"], []]
  columns := [["pet", "age"]]

/-- An additional axis without groups. -/
def flatDesign : Design where
  rows := [["sex"]]
  columns := [["pet"]]
  additional := some []

theorem build_validates_sample :
    FirstFault sample faultyDesign { weight := some "w" } (.emptyGroup .rows 1) ∧
    ∃ t stats, build sample flatDesign { statistics := [.mean, .count, .median, .mean] } = .ok t ∧
      IsRequested { statistics := [.mean, .count, .median, .mean] } stats ∧
      t.warnings = .additionalAxis :: stats.map .notComputed := by
  constructor
  · obtain ⟨-, hfirst, -⟩ := build_validates reachable_sample faultyDesign { weight := some "w" }
    exact (hfirst _).mp (by cbv)
  · obtain ⟨-, -, hwarnings⟩ := build_validates reachable_sample flatDesign
      { statistics := [.mean, .count, .median, .mean] }
    have hbuild := build_eq_ok_iff.mpr ⟨accepted_of_sampleIds (d := flatDesign)
      (o := { statistics := [.mean, .count, .median, .mean] }) (by decide) (by decide)
      (by intro axis; cases axis <;> decide) rfl, rfl⟩
    obtain ⟨stats, hstats, heq⟩ := hwarnings _ hbuild
    exact ⟨_, stats, hbuild, hstats, heq⟩

end Tabulation

end SurveyTables
