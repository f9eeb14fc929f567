import SurveyTables.Table.Path

/-!
# Paths brought to one length

The paths of an axis are as long as the longest of them once they are padded, and what was added can be
cut off again, as far as no path had filler of its own.

* `length_le_longest`, `exists_length_eq_longest`: the length that all paths are brought to;
* `Path.length_pad`, `Path.takeWhile_pad`, `Path.take_depth_pad_eq_iff`: one path padded, and cut again;
* `IsPadding`, `isPadding_padded`, **`IsPadding.eq_padded`**: there is one way to bring paths to the
  length of the longest by filler;
* `padded_padded`, `map_take_depth_padded_eq_iff`: paths padded again, and cut at their depth;
* **`padded_reversible`**: so padding loses nothing that was no filler.
-/

namespace SurveyTables

variable {paths : List Path}

/-! ## The longest path -/

theorem le_foldl_max (paths : List Path) (start : Nat) :
    start ≤ paths.foldl (fun length p => max length p.length) start ∧
      ∀ p ∈ paths, p.length ≤ paths.foldl (fun length p => max length p.length) start := by
  induction paths generalizing start with
  | nil => simp
  | cons q paths ih =>
    obtain ⟨hstart, hpaths⟩ := ih (max start q.length)
    rw [List.foldl_cons]
    refine ⟨by omega, fun p hp => ?_⟩
    rcases List.mem_cons.mp hp with rfl | hp
    · omega
    · exact hpaths p hp

theorem foldl_max_eq_or_exists (paths : List Path) (start : Nat) :
    paths.foldl (fun length p => max length p.length) start = start ∨
      ∃ p ∈ paths, p.length = paths.foldl (fun length p => max length p.length) start := by
  induction paths generalizing start with
  | nil => exact .inl rfl
  | cons p paths ih =>
    rw [List.foldl_cons]
    rcases ih (max start p.length) with heq | ⟨p', hp', heq⟩
    · rw [heq]
      rcases Nat.le_total start p.length with hle | hle
      · exact .inr ⟨p, List.mem_cons_self, (Nat.max_eq_right hle).symm⟩
      · exact .inl (Nat.max_eq_left hle)
    · exact .inr ⟨p', List.mem_cons_of_mem p hp', heq⟩

theorem length_le_longest {p : Path} (h : p ∈ paths) : p.length ≤ longest paths :=
  (le_foldl_max paths 0).2 p h

theorem exists_length_eq_longest (h : paths ≠ []) : ∃ p ∈ paths, p.length = longest paths := by
  rcases foldl_max_eq_or_exists paths 0 with hzero | hpath
  · -- then all paths are empty, and any of them will do
    obtain ⟨p, hp⟩ := List.exists_mem_of_ne_nil paths h
    have hle := length_le_longest hp
    refine ⟨p, hp, ?_⟩
    rw [longest] at hle ⊢
    omega
  · exact hpath

/-! ## One path -/

namespace Path

variable {p : Path} {length : Nat}

theorem length_pad (h : p.length ≤ length) : (p.pad length).length = length := by
  rw [pad, List.length_append, List.length_replicate]
  omega

theorem takeWhile_pad (h : filler ∉ p) (length : Nat) :
    (p.pad length).takeWhile (· != filler) = p := by
  have hpairs : ∀ pair ∈ p, (pair != filler) = true := by
    intro pair hpair
    rw [bne_iff_ne]
    rintro rfl
    exact h hpair
  rw [pad, List.takeWhile_append_of_pos hpairs, List.takeWhile_replicate]
  simp

theorem take_depth (p : Path) : p.take p.depth = p.takeWhile (· != filler) :=
  (List.prefix_iff_eq_take.mp (List.takeWhile_prefix _)).symm

/-- **A path is cut again to what it was** just if it has no filler of its own. -/
theorem take_depth_pad_eq_iff :
    (p.pad length).take (p.pad length).depth = p ↔ filler ∉ p := by
  rw [take_depth]
  refine ⟨fun h hmem => ?_, fun h => takeWhile_pad h length⟩
  have hall : ((p.pad length).takeWhile (· != filler)).all (· != filler) = true := List.all_takeWhile
  rw [h, List.all_eq_true] at hall
  exact absurd rfl (bne_iff_ne.mp (hall filler hmem))

end Path

/-! ## All paths -/

/-- The paths in order, each followed by filler only, and all as long as the longest of the paths. -/
structure IsPadding (paths longer : List Path) : Prop where
  length_eq : longer.length = paths.length
  followed : ∀ (i : Nat) p, paths[i]? = some p →
    ∃ n, longer[i]? = some (p ++ List.replicate n filler)
  length_le : ∀ q ∈ longer, ∀ p ∈ paths, p.length ≤ q.length
  exists_length_eq : ∀ q ∈ longer, ∃ p ∈ paths, p.length = q.length

theorem length_of_mem_padded {q : Path} (h : q ∈ padded paths) : q.length = longest paths := by
  obtain ⟨p, hp, rfl⟩ := List.mem_map.mp h
  exact Path.length_pad (length_le_longest hp)

theorem isPadding_padded (paths : List Path) : IsPadding paths (padded paths) where
  length_eq := List.length_map _
  followed i p hp := ⟨longest paths - p.length, by rw [padded, List.getElem?_map, hp]; rfl⟩
  length_le q hq p hp := by
    rw [length_of_mem_padded hq]
    exact length_le_longest hp
  exists_length_eq q hq := by
    have hne : paths ≠ [] := by
      rintro rfl
      exact absurd hq List.not_mem_nil
    rw [length_of_mem_padded hq]
    exact exists_length_eq_longest hne

theorem isPadding_self (h : ∀ p ∈ paths, ∀ q ∈ paths, p.length = q.length) : IsPadding paths paths where
  length_eq := rfl
  followed i p hp := ⟨0, by rw [List.replicate_zero, List.append_nil, hp]⟩
  length_le q hq p hp := Nat.le_of_eq (h p hp q hq)
  exists_length_eq q hq := ⟨q, hq, rfl⟩

/-- **There is one way to bring paths to the length of the longest** by filler. -/
theorem IsPadding.eq_padded {longer : List Path} (h : IsPadding paths longer) :
    longer = padded paths := by
  refine List.ext_getElem? fun i => ?_
  rw [padded, List.getElem?_map]
  cases hp : paths[i]? with
  | none =>
    rw [List.getElem?_eq_none_iff, ← h.length_eq] at hp
    exact List.getElem?_eq_none hp
  | some p =>
    obtain ⟨n, hq⟩ := h.followed i p hp
    have hmem := List.mem_of_getElem? hq
    have hne : paths ≠ [] := List.ne_nil_of_mem (List.mem_of_getElem? hp)
    -- both are as long as the longest path, so they have the same filler
    have hlength : p.length + n = longest paths := by
      obtain ⟨p', hp', heq⟩ := h.exists_length_eq _ hmem
      obtain ⟨p'', hp'', heq'⟩ := exists_length_eq_longest hne
      have hle := h.length_le _ hmem p'' hp''
      have hle' := length_le_longest hp'
      rw [List.length_append, List.length_replicate] at heq hle
      omega
    rw [hq, Option.map_some, Path.pad, ← hlength, Nat.add_sub_cancel_left]

theorem padded_padded (paths : List Path) : padded (padded paths) = padded paths := by
  have hsame : ∀ p ∈ padded paths, ∀ q ∈ padded paths, p.length = q.length := by
    intro p hp q hq
    rw [length_of_mem_padded hp, length_of_mem_padded hq]
  exact (isPadding_self hsame).eq_padded.symm

/-- **Padded paths are cut again to what they were** just if none of these had filler of its own. -/
theorem map_take_depth_padded_eq_iff :
    ((padded paths).map fun q => q.take q.depth) = paths ↔ ∀ p ∈ paths, filler ∉ p := by
  have hone := List.map_inj_left (l := paths)
    (f := (fun q : Path => q.take q.depth) ∘ Path.pad (longest paths)) (g := id)
  rw [List.map_id] at hone
  rw [padded, List.map_map, hone]
  exact forall₂_congr fun p _ => Path.take_depth_pad_eq_iff

/-- **Padding brings paths to the length of the longest and no further.** Cut at their depth they are the
paths they were, just if none of these had filler of its own. -/
theorem padded_reversible (paths : List Path) :
    IsPadding paths (padded paths) ∧ padded (padded paths) = padded paths ∧
    (((padded paths).map fun q => q.take q.depth) = paths ↔ ∀ p ∈ paths, filler ∉ p) ∧
    ∀ others, (∀ p ∈ paths, filler ∉ p) → (∀ p ∈ others, filler ∉ p) →
      padded others = padded paths → others = paths := by
  refine ⟨isPadding_padded paths, padded_padded paths, map_take_depth_padded_eq_iff,
    fun others hpaths hothers heq => ?_⟩
  calc others = (padded others).map fun q => q.take q.depth :=
        (map_take_depth_padded_eq_iff.mpr hothers).symm
    _ = (padded paths).map fun q => q.take q.depth := by rw [heq]
    _ = paths := map_take_depth_padded_eq_iff.mpr hpaths

/-- Paths of different lengths, one of them empty, with texts that are empty. -/
def raggedPaths : List Path :=
  [[("sex", "f")], [("sex", ""), ("", "dog"), ("age", "7")], [], [("sex", "f"), ("pet", "cat")]]

theorem padded_reversible_ragged :
    (∀ p ∈ raggedPaths, filler ∉ p) ∧
    ((padded raggedPaths).map fun q => q.take q.depth) = raggedPaths ∧
    ((padded raggedPaths).map fun q => q.takeWhile (· != filler)) = raggedPaths := by
  obtain ⟨-, -, hcut, hinjective⟩ := padded_reversible raggedPaths
  have hpaths : ∀ p ∈ raggedPaths, filler ∉ p := by decide
  exact ⟨hpaths, hcut.mpr hpaths, hinjective _ hpaths (by decide) (by decide)⟩

/-- Filler of a path's own cannot be told from what it is padded with. -/
example : padded [[filler], [("sex", "f")]] = padded [[], [("sex", "f")]] := by decide

end SurveyTables
