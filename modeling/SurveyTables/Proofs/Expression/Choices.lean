import SurveyTables.Proofs.Expression.JoinedTexts

/-!
# The choices of an expression

The groups of a chain are counted off like numbers: the place of a group, written with as many digits as
the chain has items, tells which group is taken of which item.

* `ofDigits`, `IsNumeral`: numbers in mixed radix, with `IsNumeral.lt_prod`, `exists_isNumeral` and
  `IsNumeral.unique`;
* `getElem?_products`, **`getElem?_groupsNested`**: the group at a place of a product;
* `sublist_ids_of_mem_groups`: a group keeps the order of the ids;
* `HasItems`, **`HasItems.groups_ne_nil`**, `HasItems.exists_group_of_mem_ids`: no empty sums and chains;
* `CountsOff`, **`groups_countsOff`**.
-/

namespace SurveyTables.Expression

/-! ## Numbers in mixed radix -/

/-- The number with the given digits, of which the leftmost counts most: each counts as often as there
are numbers with the digits to its right. -/
def ofDigits : List Nat → List Nat → Nat
  | _ :: radices, digit :: digits => digit * radices.prod + ofDigits radices digits
  | _, _ => 0

/-- The number has these digits, each below its radix. -/
structure IsNumeral (radices digits : List Nat) (k : Nat) : Prop where
  digit_lt : List.Forall₂ (· < ·) digits radices
  ofDigits_eq : ofDigits radices digits = k

section Numerals

variable {radices digits digits' : List Nat} {radix digit k : Nat}

theorem isNumeral_nil : IsNumeral [] digits k ↔ digits = [] ∧ k = 0 := by
  constructor
  · rintro ⟨hlt, rfl⟩
    obtain rfl := List.forall₂_nil_right_iff.mp hlt
    exact ⟨rfl, rfl⟩
  · rintro ⟨rfl, rfl⟩
    exact ⟨.nil, rfl⟩

theorem isNumeral_cons : IsNumeral (radix :: radices) digits k ↔
    ∃ digit rest j, digits = digit :: rest ∧ digit < radix ∧ IsNumeral radices rest j ∧
      k = digit * radices.prod + j := by
  constructor
  · rintro ⟨hlt, rfl⟩
    obtain ⟨digit, rest, hdigit, hrest, rfl⟩ := List.forall₂_cons_right_iff.mp hlt
    exact ⟨digit, rest, _, rfl, hdigit, ⟨hrest, rfl⟩, rfl⟩
  · rintro ⟨digit, rest, j, rfl, hdigit, ⟨hrest, rfl⟩, rfl⟩
    exact ⟨.cons hdigit hrest, rfl⟩

theorem IsNumeral.lt_prod (h : IsNumeral radices digits k) : k < radices.prod := by
  induction radices generalizing digits k with
  | nil =>
    obtain ⟨-, rfl⟩ := isNumeral_nil.mp h
    exact Nat.one_pos
  | cons radix radices ih =>
    obtain ⟨digit, rest, j, -, hdigit, hrest, rfl⟩ := isNumeral_cons.mp h
    have hj := ih hrest
    calc digit * radices.prod + j < (digit + 1) * radices.prod := by rw [Nat.succ_mul]; omega
      _ ≤ radix * radices.prod := Nat.mul_le_mul_right _ hdigit
      _ = (radix :: radices).prod := List.prod_cons.symm

theorem exists_isNumeral (h : k < radices.prod) : ∃ digits, IsNumeral radices digits k := by
  induction radices generalizing k with
  | nil => exact ⟨[], isNumeral_nil.mpr ⟨rfl, Nat.lt_one_iff.mp h⟩⟩
  | cons radix radices ih =>
    rw [List.prod_cons] at h
    have hpos : 0 < radices.prod := Nat.pos_of_ne_zero fun hzero => by simp [hzero] at h
    obtain ⟨rest, hrest⟩ := ih (Nat.mod_lt k hpos)
    exact ⟨k / radices.prod :: rest, isNumeral_cons.mpr ⟨_, rest, _, rfl,
      Nat.div_lt_of_lt_mul (by rwa [Nat.mul_comm]), hrest, (Nat.div_add_mod' k _).symm⟩⟩

theorem IsNumeral.unique (h : IsNumeral radices digits k) (h' : IsNumeral radices digits' k) :
    digits = digits' := by
  induction radices generalizing digits digits' k with
  | nil => rw [(isNumeral_nil.mp h).1, (isNumeral_nil.mp h').1]
  | cons radix radices ih =>
    obtain ⟨digit, rest, j, rfl, -, hrest, rfl⟩ := isNumeral_cons.mp h
    obtain ⟨digit', rest', j', rfl, -, hrest', heq⟩ := isNumeral_cons.mp h'
    -- the first digit is the quotient, and the others are the digits of the remainder
    have hpos : 0 < radices.prod := Nat.lt_of_le_of_lt (Nat.zero_le j) hrest.lt_prod
    have hdigit := congrArg (· / radices.prod) heq
    have hmod := congrArg (· % radices.prod) heq
    simp only [Nat.mul_comm _ radices.prod, Nat.mul_add_div hpos, Nat.mul_add_mod,
      Nat.div_eq_of_lt hrest.lt_prod, Nat.div_eq_of_lt hrest'.lt_prod,
      Nat.mod_eq_of_lt hrest.lt_prod, Nat.mod_eq_of_lt hrest'.lt_prod, Nat.add_zero] at hdigit hmod
    subst hdigit hmod
    rw [ih hrest hrest']

end Numerals

/-! ## The places of a product -/

theorem length_products (gs hs : List Group) : (products gs hs).length = gs.length * hs.length := by
  induction gs with
  | nil => rw [products, List.flatMap_nil, List.length_nil, Nat.zero_mul]
  | cons g gs ih =>
    rw [products, List.flatMap_cons, List.length_append, List.length_map, List.length_cons,
      Nat.succ_mul, Nat.add_comm, ← products, ih]

theorem getElem?_products {gs hs : List Group} {i j : Nat} {g h : Group} (hg : gs[i]? = some g)
    (hh : hs[j]? = some h) : (products gs hs)[i * hs.length + j]? = some (g ++ h) := by
  have hj := (List.getElem?_eq_some_iff.mp hh).1
  induction gs generalizing i with
  | nil => exact nomatch hg
  | cons g' gs ih =>
    rw [products, List.flatMap_cons, ← products]
    cases i with
    | zero =>
      obtain rfl := Option.some.inj hg
      rw [Nat.zero_mul, Nat.zero_add, List.getElem?_append_left (by rwa [List.length_map]),
        List.getElem?_map, hh]
      rfl
    | succ i =>
      have hplace : (i + 1) * hs.length + j - (hs.map (g' ++ ·)).length = i * hs.length + j := by
        rw [List.length_map, Nat.succ_mul]
        omega
      rw [List.getElem?_append_right (by rw [List.length_map, Nat.succ_mul]; omega), hplace]
      exact ih hg

theorem length_groupsNested (es : List Expression) :
    (groupsNested es).length = (es.map fun e => e.groups.length).prod := by
  induction es with
  | nil => rw [groupsNested]; rfl
  | cons e es ih => rw [groupsNested_cons, length_products, ih, List.map_cons, List.prod_cons]

/-- The groups are those of the items at the given places. -/
def IsChoice (items : List Expression) (places : List Nat) (gs : List Group) : Prop :=
  List.Forall₂ (fun entry g => entry.1.groups[entry.2]? = some g) (items.zip places) gs

/-- **The group at a place of a chain** joins the groups of its items at the digits of the place. -/
theorem getElem?_groupsNested {es : List Expression} {digits : List Nat} {k : Nat}
    (h : IsNumeral (es.map fun e => e.groups.length) digits k) :
    ∃ gs, IsChoice es digits gs ∧ (groupsNested es)[k]? = some gs.flatten := by
  induction es generalizing digits k with
  | nil =>
    obtain ⟨rfl, rfl⟩ := isNumeral_nil.mp h
    exact ⟨[], .nil, by rw [groupsNested]; rfl⟩
  | cons e es ih =>
    obtain ⟨digit, rest, j, rfl, hdigit, hrest, rfl⟩ := isNumeral_cons.mp h
    obtain ⟨gs, hgs, hget⟩ := ih hrest
    have hg := List.getElem?_eq_getElem hdigit
    refine ⟨_ :: gs, .cons hg hgs, ?_⟩
    rw [groupsNested_cons, ← length_groupsNested, getElem?_products hg hget, List.flatten_cons]

/-! ## The ids of a group -/

theorem mem_groupsNested_cons {e : Expression} {es : List Expression} {g : Group} :
    g ∈ groupsNested (e :: es) ↔ ∃ h ∈ e.groups, ∃ k ∈ groupsNested es, h ++ k = g := by
  rw [groupsNested, List.mem_flatMap]
  simp only [List.mem_map]

theorem sublist_of_mem_groupsNested {es : List Expression}
    (h : ∀ e ∈ es, ∀ g ∈ e.groups, g.Sublist e.ids) :
    ∀ g ∈ groupsNested es, g.Sublist (es.flatMap ids) := by
  induction es with
  | nil =>
    intro g hg
    rw [groupsNested, List.mem_singleton] at hg
    rw [hg]
    exact List.nil_sublist _
  | cons e es ih =>
    intro g hg
    obtain ⟨g', hg', k, hk, rfl⟩ := mem_groupsNested_cons.mp hg
    rw [List.flatMap_cons]
    exact (h e List.mem_cons_self g' hg').append
      (ih (fun e he => h e (List.mem_cons_of_mem _ he)) k hk)

mutual

/-- **A group holds ids of the expression in their order.** -/
theorem sublist_ids_of_mem_groups : ∀ (e : Expression), ∀ g ∈ e.groups, g.Sublist e.ids
  | .single id, g, hg => by
    rw [groups, List.mem_singleton] at hg
    rw [hg, ids]
  | .nest items, g, hg => by
    rw [groups] at hg
    rw [ids, idsAll_eq]
    exact sublist_of_mem_groupsNested (sublist_ids_of_mem items) g hg
  | .sum items, g, hg => by
    rw [groups, groupsStacked_eq, List.mem_flatMap] at hg
    obtain ⟨e, he, hg⟩ := hg
    rw [ids, idsAll_eq, List.flatMap_def]
    exact (sublist_ids_of_mem items e he g hg).trans
      (List.sublist_flatten_of_mem (List.mem_map_of_mem he))
  | .paren inner, g, hg => by
    rw [groups] at hg
    rw [ids]
    exact sublist_ids_of_mem_groups inner g hg

theorem sublist_ids_of_mem :
    ∀ (es : List Expression), ∀ e ∈ es, ∀ g ∈ e.groups, g.Sublist e.ids
  | [] => List.forall_mem_nil _
  | e :: es => List.forall_mem_cons.mpr ⟨sublist_ids_of_mem_groups e, sublist_ids_of_mem es⟩

end

/-! ## Expressions without empty sums and chains -/

/-- No sum and no chain in the expression is empty. -/
inductive HasItems : Expression → Prop where
  | single (id : String) : HasItems (.single id)
  | nest {items : List Expression} : items ≠ [] → (∀ e ∈ items, HasItems e) → HasItems (.nest items)
  | sum {items : List Expression} : items ≠ [] → (∀ e ∈ items, HasItems e) → HasItems (.sum items)
  | paren {inner : Expression} : HasItems inner → HasItems (.paren inner)

theorem WellFormed.hasItems {e : Expression} (h : e.WellFormed) : e.HasItems := by
  induction h with
  | single _ => exact .single _
  | nest hlength _ _ ih => exact .nest (ne_nil_of_two_le hlength) ih
  | sum hlength _ _ ih => exact .sum (ne_nil_of_two_le hlength) ih
  | paren _ ih => exact .paren ih

theorem groupsNested_ne_nil {es : List Expression} (h : ∀ e ∈ es, e.groups ≠ []) :
    groupsNested es ≠ [] := by
  rw [← List.length_pos_iff, length_groupsNested]
  refine List.prod_pos fun n hn => ?_
  obtain ⟨e, he, rfl⟩ := List.mem_map.mp hn
  exact List.length_pos_iff.mpr (h e he)

theorem HasItems.groups_ne_nil {e : Expression} (h : e.HasItems) :
    e.groups ≠ [] ∧ ∀ g ∈ e.groups, g ≠ [] := by
  induction h with
  | single id =>
    rw [groups]
    exact ⟨List.cons_ne_nil _ _, List.forall_mem_singleton.mpr (List.cons_ne_nil _ _)⟩
  | @nest items hne _ ih =>
    obtain ⟨e, es, rfl⟩ := List.exists_cons_of_ne_nil hne
    rw [groups]
    refine ⟨groupsNested_ne_nil fun e he => (ih e he).1, fun g hg => ?_⟩
    obtain ⟨h, hh, k, -, rfl⟩ := mem_groupsNested_cons.mp hg
    exact List.append_ne_nil_of_left_ne_nil ((ih e List.mem_cons_self).2 h hh) k
  | @sum items hne _ ih =>
    obtain ⟨e, es, rfl⟩ := List.exists_cons_of_ne_nil hne
    rw [groups, groupsStacked_eq]
    refine ⟨fun hnil => ?_, fun g hg => ?_⟩
    · exact (ih e List.mem_cons_self).1 (List.flatMap_eq_nil_iff.mp hnil e List.mem_cons_self)
    · obtain ⟨e, he, hg⟩ := List.mem_flatMap.mp hg
      exact (ih e he).2 g hg
  | paren _ ih =>
    rw [groups]
    exact ih

theorem exists_infix_groupsNested {es : List Expression} (h : ∀ e ∈ es, e.groups ≠ [])
    {e : Expression} (he : e ∈ es) {g : Group} (hg : g ∈ e.groups) :
    ∃ k ∈ groupsNested es, g <:+: k := by
  induction es with
  | nil => exact absurd he List.not_mem_nil
  | cons e' es ih =>
    have hes := fun e he => h e (List.mem_cons_of_mem _ he)
    rcases List.mem_cons.mp he with rfl | he
    · obtain ⟨k, hk⟩ := List.exists_mem_of_ne_nil _ (groupsNested_ne_nil hes)
      exact ⟨g ++ k, mem_groupsNested_cons.mpr ⟨g, hg, k, hk, rfl⟩, (List.prefix_append g k).isInfix⟩
    · obtain ⟨g', hg'⟩ := List.exists_mem_of_ne_nil _ (h e' List.mem_cons_self)
      obtain ⟨k, hk, hinfix⟩ := ih hes he
      exact ⟨g' ++ k, mem_groupsNested_cons.mpr ⟨g', hg', k, hk, rfl⟩,
        hinfix.trans (List.suffix_append g' k).isInfix⟩

/-- **Every id of such an expression occurs in a group.** -/
theorem HasItems.exists_group_of_mem_ids {e : Expression} (h : e.HasItems) :
    ∀ id ∈ e.ids, ∃ g ∈ e.groups, id ∈ g := by
  induction h with
  | single id =>
    intro id' hid
    rw [ids] at hid
    rw [groups]
    exact ⟨[id], List.mem_singleton_self _, hid⟩
  | nest _ hitems ih =>
    intro id hid
    rw [ids, idsAll_eq, List.mem_flatMap] at hid
    obtain ⟨e, he, hid⟩ := hid
    obtain ⟨g, hg, hid⟩ := ih e he id hid
    obtain ⟨k, hk, hinfix⟩ :=
      exists_infix_groupsNested (fun e he => (hitems e he).groups_ne_nil.1) he hg
    rw [groups]
    exact ⟨k, hk, hinfix.subset hid⟩
  | sum _ _ ih =>
    intro id hid
    rw [ids, idsAll_eq, List.mem_flatMap] at hid
    obtain ⟨e, he, hid⟩ := hid
    obtain ⟨g, hg, hid⟩ := ih e he id hid
    rw [groups, groupsStacked_eq]
    exact ⟨g, List.mem_flatMap.mpr ⟨e, he, hg⟩, hid⟩
  | paren _ ih =>
    rw [ids, groups]
    exact ih

/-! ## Counting off -/

/-- A chain has as many groups as there are ways to choose a group of every item, and the group at a place
joins the choices that the digits of the place stand for. Every place has digits, in one way. -/
structure CountsOff (items : List Expression) : Prop where
  length_eq : (nest items).groups.length = (items.map fun e => e.groups.length).prod
  existsUnique_digits : ∀ k < (items.map fun e => e.groups.length).prod,
    ∃! digits, IsNumeral (items.map fun e => e.groups.length) digits k
  getElem?_eq : ∀ digits k, IsNumeral (items.map fun e => e.groups.length) digits k →
    ∃ gs, IsChoice items digits gs ∧ (nest items).groups[k]? = some gs.flatten

theorem countsOff (items : List Expression) : CountsOff items where
  length_eq := by rw [groups, length_groupsNested]
  existsUnique_digits k hk := by
    obtain ⟨digits, hdigits⟩ := exists_isNumeral hk
    exact ⟨digits, hdigits, fun _ h => h.unique hdigits⟩
  getElem?_eq digits k h := by
    rw [groups]
    exact getElem?_groupsNested h

/-- **Expressions count off their choices.** A sum has the groups of its items in turn, and those of a chain
are counted off with the leftmost item changing slowest. -/
theorem groups_countsOff :
    (∀ items, (sum items).groups.length = (items.map fun e => e.groups.length).sum) ∧
    (∀ items, CountsOff items) ∧
    (∀ e : Expression, ∀ g ∈ e.groups, g.Sublist e.ids) ∧
    ∀ e : Expression, e.HasItems → e.groups ≠ [] ∧ (∀ g ∈ e.groups, g ≠ []) ∧
      ∀ id ∈ e.ids, ∃ g ∈ e.groups, id ∈ g := by
  refine ⟨fun items => ?_, countsOff, sublist_ids_of_mem_groups, fun e h => ?_⟩
  · rw [groups, groupsStacked_eq, List.length_flatMap]
  · exact ⟨h.groups_ne_nil.1, h.groups_ne_nil.2, h.exists_group_of_mem_ids⟩

/-- The items of `(a + b) > x > (c + d > e)`. -/
def threeItems : List Expression :=
  [.paren (.sum [.single "a", .single "b"]), .single "x",
    .paren (.sum [.single "c", .nest [.single "d", .single "e"]])]

theorem hasItems_threeItems : (nest threeItems).HasItems := by
  have hsingle : ∀ ids : List String, ∀ e ∈ ids.map single, e.HasItems := by
    intro ids e he
    obtain ⟨id, -, rfl⟩ := List.mem_map.mp he
    exact .single id
  have hnest : (nest [.single "d", .single "e"]).HasItems :=
    .nest (List.cons_ne_nil _ _) (hsingle ["d", "e"])
  refine .nest (List.cons_ne_nil _ _) (List.forall_mem_cons.mpr ⟨?_, List.forall_mem_cons.mpr
    ⟨.single "x", List.forall_mem_singleton.mpr ?_⟩⟩)
  · exact .paren (.sum (List.cons_ne_nil _ _) (hsingle ["a", "b"]))
  · exact .paren (.sum (List.cons_ne_nil _ _) (List.forall_mem_cons.mpr
      ⟨.single "c", List.forall_mem_singleton.mpr hnest⟩))

theorem isNumeral_threeItems :
    IsNumeral (threeItems.map fun e => e.groups.length) [1, 0, 1] 3 :=
  ⟨.cons (by decide) (.cons (by decide) (.cons (by decide) .nil)), by decide⟩

theorem groups_countsOff_threeItems :
    (IsNumeral (threeItems.map fun e => e.groups.length) [1, 0, 1] 3 ∧
      (nest threeItems).HasItems) ∧
    (∃ gs, IsChoice threeItems [1, 0, 1] gs ∧ (nest threeItems).groups[3]? = some gs.flatten) ∧
    ∀ id ∈ (nest threeItems).ids, ∃ g ∈ (nest threeItems).groups, id ∈ g :=
  ⟨⟨isNumeral_threeItems, hasItems_threeItems⟩,
    (groups_countsOff.2.1 threeItems).getElem?_eq _ _ isNumeral_threeItems,
    (groups_countsOff.2.2.2 _ hasItems_threeItems).2.2⟩

example : (nest threeItems).groups =
    [["a", "x", "c"], ["a", "x", "d", "e"], ["b", "x", "c"], ["b", "x", "d", "e"]] := by decide

end SurveyTables.Expression
