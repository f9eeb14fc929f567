import SurveyTables.Proofs.Questionnaire.Questions

/-!
# The last definition of each id

A questionnaire made of a list adds the variables one by one, and each takes the older one with its id
out. What is left are the last variables with their ids.

* `IsLast`, `isLast_cons_zero`, `isLast_cons_succ`: the places of a list where an id stands last;
* `KeepsLast`, `keepsLast_lastOfEach`: the variables at these places, in order;
* `toList_ofList_eq`, `toList_ofList_append`: the variables of a list, and of two joined;
* **`ofList_keepsLast`**.
-/

namespace SurveyTables.Questionnaire

/-- The variable at the place is the last with its id. -/
def IsLast (vs : List Variable) (i : Nat) : Prop :=
  ∃ v, vs[i]? = some v ∧ ∀ j w, i < j → vs[j]? = some w → w.id ≠ v.id

/-- The second list has the variables of the first that are the last with their id, from left to right. -/
def KeepsLast (vs kept : List Variable) : Prop :=
  ∃ places : List Nat, places.Pairwise (· < ·) ∧ (∀ i, i ∈ places ↔ IsLast vs i) ∧
    kept.map some = places.map fun i => vs[i]?

variable {v : Variable} {vs : List Variable}

theorem isLast_cons_zero : IsLast (v :: vs) 0 ↔ v.id ∉ vs.map Variable.id := by
  constructor
  · rintro ⟨w, hw, hlast⟩ hmem
    obtain rfl : v = w := Option.some.inj hw
    obtain ⟨u, hu, hid⟩ := List.mem_map.mp hmem
    obtain ⟨j, hj⟩ := List.mem_iff_getElem?.mp hu
    exact hlast (j + 1) u (Nat.succ_pos j) hj hid
  · intro hnew
    refine ⟨v, rfl, fun j w hj hw hid => hnew ?_⟩
    cases j with
    | zero => exact absurd hj (Nat.lt_irrefl 0)
    | succ j => exact hid ▸ List.mem_map_of_mem (List.mem_of_getElem? hw)

theorem isLast_cons_succ {i : Nat} : IsLast (v :: vs) (i + 1) ↔ IsLast vs i := by
  refine exists_congr fun w => and_congr Iff.rfl ⟨fun hlast j u hj hu => ?_, fun hlast j u hj hu => ?_⟩
  · exact hlast (j + 1) u (Nat.succ_lt_succ hj) hu
  · cases j with
    | zero => exact absurd hj (Nat.not_lt_zero _)
    | succ j => exact hlast j u (Nat.lt_of_succ_lt_succ hj) hu

/-- **The last of each id are kept in their order.** -/
theorem keepsLast_lastOfEach (vs : List Variable) :
    KeepsLast vs (Catalog.lastOfEach Variable.id vs) := by
  induction vs with
  | nil => exact ⟨[], List.Pairwise.nil, by simp [IsLast], rfl⟩
  | cons v vs ih =>
    obtain ⟨places, hordered, hplaces, hkept⟩ := ih
    -- the places behind the first variable move on by one
    have hmoved : (places.map (· + 1)).Pairwise (· < ·) :=
      hordered.map _ fun i j hlt => Nat.succ_lt_succ hlt
    have hbehind : ∀ i, i + 1 ∈ places.map (· + 1) ↔ IsLast (v :: vs) (i + 1) := by
      intro i
      rw [isLast_cons_succ, ← hplaces]
      simp
    have hvalues : (Catalog.lastOfEach Variable.id vs).map some =
        (places.map (· + 1)).map fun i => (v :: vs)[i]? := by
      rw [hkept, List.map_map]
      rfl
    rw [Catalog.lastOfEach]
    split
    · next hmem =>
      refine ⟨places.map (· + 1), hmoved, fun i => ?_, hvalues⟩
      cases i with
      | zero => simp [isLast_cons_zero, hmem]
      | succ i => exact hbehind i
    · next hmem =>
      refine ⟨0 :: places.map (· + 1), List.pairwise_cons.mpr ⟨by simp, hmoved⟩, fun i => ?_, ?_⟩
      · cases i with
        | zero => simp [isLast_cons_zero, hmem]
        | succ i => simpa using hbehind i
      · rw [List.map_cons, List.map_cons, hvalues]
        rfl

/-! ## Questionnaires of lists -/

theorem toList_ofList_eq (vs : List Variable) :
    (ofList vs).toList = Catalog.lastOfEach Variable.id vs := by
  rw [ofList, foldl_add_eq]
  exact Catalog.valid_empty.toList_foldl_renew_eq vs

/-- Joining lists is adding the second to the questionnaire of the first. -/
theorem toList_ofList_append (vs ws : List Variable) : (ofList (vs ++ ws)).toList =
    ((ofList vs).toList.filter fun v => v.id ∉ ws.map Variable.id) ++ (ofList ws).toList := by
  have hvalid : (ofList vs).catalog.Valid := by
    rw [ofList, foldl_add_eq]
    exact Catalog.valid_empty.foldl_renew vs
  rw [toList_ofList_eq ws, ofList, List.foldl_append, foldl_add_eq]
  exact hvalid.toList_foldl_renew_eq ws

/-- **A questionnaire made of a list keeps the last definition of each id**, in the order of their places.
-/
theorem ofList_keepsLast (vs ws : List Variable) :
    KeepsLast vs (ofList vs).toList ∧
    (ofList (vs ++ ws)).toList =
      ((ofList vs).toList.filter fun v => v.id ∉ ws.map Variable.id) ++ (ofList ws).toList := by
  refine ⟨?_, toList_ofList_append vs ws⟩
  rw [toList_ofList_eq]
  exact keepsLast_lastOfEach vs

end SurveyTables.Questionnaire
