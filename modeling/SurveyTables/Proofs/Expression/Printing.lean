import SurveyTables.Expression.Groups
import SurveyTables.Proofs.Expression.Lexemes
import SurveyTables.Proofs.Expression.Reading

/-!
# Groups in writing

Names and signs that are written with a space between them are read as they were written. So the groups
of an axis, written as they are shown, are read as the same groups.

* `IsPlain`: the tokens of an expression;
* `spaced`, **`tokens_spaced`**: the tokens of a row of plain tokens with spaces between them;
* `groupTree`, `axisTree`: the derivations of a group and of an axis;
* `axisText`, **`IsAxis.toList_axisText`**, **`IsAxis.ofText_spaced`**, **`IsAxis.groups_axisTree`**: an
  axis is written as its derivation, is read as it, and it stands for the groups of the axis.
-/

namespace SurveyTables.Expression

/-! ## Plain tokens -/

/-- A token that an expression can hold. -/
def IsPlain : Token → Prop
  | .name id => IsName id
  | .plus | .greater | .leftParen | .rightParen => True
  | .byWord | .illegal _ => False

/-- Where a word ends: at the end of the text or in front of a space. -/
def EndsWord (rest : List Char) : Prop :=
  rest = [] ∨ ∃ more, rest = ' ' :: more

theorem EndsWord.nil : EndsWord [] := .inl rfl

theorem EndsWord.space (more : List Char) : EndsWord (' ' :: more) := .inr ⟨more, rfl⟩

/-- The tokens with a space between them. -/
def spaced (ts : List Token) : List Char :=
  [' '].intercalate (ts.map fun t => t.text.toList)

theorem spaced_singleton (t : Token) : spaced [t] = t.text.toList :=
  List.intercalate_singleton

theorem spaced_cons_cons (t u : Token) (ts : List Token) :
    spaced (t :: u :: ts) = t.text.toList ++ ' ' :: spaced (u :: ts) := by
  rw [spaced, List.map_cons, List.map_cons, List.intercalate_cons_cons, List.append_assoc,
    List.singleton_append]
  rfl

theorem spaced_append {ts us : List Token} (ht : ts ≠ []) (hu : us ≠ []) :
    spaced (ts ++ us) = spaced ts ++ ' ' :: spaced us := by
  induction ts with
  | nil => exact absurd rfl ht
  | cons t ts ih =>
    cases ts with
    | nil =>
      obtain ⟨u, us, rfl⟩ := List.exists_cons_of_ne_nil hu
      rw [List.singleton_append, spaced_cons_cons, spaced_singleton]
    | cons t' ts =>
      rw [List.cons_append, List.cons_append, spaced_cons_cons, spaced_cons_cons,
        ← List.cons_append, ih (List.cons_ne_nil _ _), List.append_assoc, List.cons_append]

/-! ## Plain tokens are read as they are written -/

theorem tokens_text {t : Token} (ht : IsPlain t) : tokens t.text.toList = [t] := by
  cases t with
  | name id => exact tokens_name ht
  | plus => rw [← tokens_nil, ← tokens_plus]; rfl
  | greater => rw [← tokens_nil, ← tokens_greater]; rfl
  | leftParen => rw [← tokens_nil, ← tokens_leftParen]; rfl
  | rightParen => rw [← tokens_nil, ← tokens_rightParen]; rfl
  | byWord | illegal c => exact ht.elim

theorem tokens_spaced_of_text {ts : List Token} (h : ∀ t ∈ ts, tokens t.text.toList = [t]) :
    tokens (spaced ts) = ts := by
  induction ts with
  | nil => exact tokens_nil
  | cons t ts ih =>
    have ht := h t List.mem_cons_self
    have ih := ih fun t ht => h t (List.mem_cons_of_mem _ ht)
    cases ts with
    | nil => rw [spaced_singleton, ht]
    | cons u ts =>
      rw [spaced_cons_cons, tokens_append (endsName_cons.mpr rfl), tokens_space, ht, ih,
        List.singleton_append]

/-- **A row of plain tokens is read as it is written.** -/
theorem tokens_spaced {ts : List Token} (h : ∀ t ∈ ts, IsPlain t) : tokens (spaced ts) = ts :=
  tokens_spaced_of_text fun t ht => tokens_text (h t ht)

/-! ## The derivation of an axis -/

/-- The derivation of a group: its ids, with `>` between them. -/
def groupTree : Group → ChainTree
  | [] => .last (.name "")
  | [id] => .last (.name id)
  | id :: next :: ids => .greater (.name id) (groupTree (next :: ids))

/-- The derivation of an axis: its groups, with `+` between them. -/
def axisTree : List Group → SumTree
  | [] => .last (groupTree [])
  | [g] => .last (groupTree g)
  | g :: next :: gs => .plus (groupTree g) (axisTree (next :: gs))

/-- The groups of an axis that can be written: there are some, and each has some variables, which are
names. -/
structure IsAxis (gs : List Group) : Prop where
  ne_nil : gs ≠ []
  group_ne_nil : ∀ g ∈ gs, g ≠ []
  isName : ∀ g ∈ gs, ∀ id ∈ g, IsName id

instance (gs : List Group) : Decidable (IsAxis gs) :=
  decidable_of_iff (gs ≠ [] ∧ (∀ g ∈ gs, g ≠ []) ∧ ∀ g ∈ gs, ∀ id ∈ g, IsName id)
    ⟨fun ⟨hne, hgroup, hname⟩ => ⟨hne, hgroup, hname⟩, fun h => ⟨h.1, h.2, h.3⟩⟩

theorem IsAxis.tail {g next : Group} {gs : List Group} (h : IsAxis (g :: next :: gs)) :
    IsAxis (next :: gs) where
  ne_nil := List.cons_ne_nil _ _
  group_ne_nil g hg := h.group_ne_nil g (List.mem_cons_of_mem _ hg)
  isName g hg := h.isName g (List.mem_cons_of_mem _ hg)

/-- An axis as it is written. -/
def axisText (gs : List Group) : String :=
  " + ".intercalate (gs.map Group.text)

theorem ChainTree.tokens_ne_nil (c : ChainTree) : c.tokens ≠ [] := by
  have h := (SumTree.last c).tokens_ne_nil
  rwa [SumTree.tokens] at h

theorem spaced_append_cons {ts us : List Token} (t : Token) (ht : ts ≠ []) (hu : us ≠ []) :
    spaced (ts ++ t :: us) = spaced ts ++ ' ' :: (t.text.toList ++ ' ' :: spaced us) := by
  obtain ⟨u, us, rfl⟩ := List.exists_cons_of_ne_nil hu
  rw [spaced_append ht (List.cons_ne_nil _ _), spaced_cons_cons]

theorem toList_groupText {g : Group} (hg : g ≠ []) :
    g.text.toList = spaced (groupTree g).tokens := by
  induction g with
  | nil => exact absurd rfl hg
  | cons id ids ih =>
    cases ids with
    | nil =>
      rw [Group.text, String.intercalate_singleton, groupTree, ChainTree.tokens, AtomTree.tokens,
        spaced_singleton]
      rfl
    | cons next ids =>
      have ih := ih (List.cons_ne_nil _ _)
      rw [Group.text] at ih ⊢
      rw [String.intercalate_cons_cons, String.toList_append, String.toList_append, ih, groupTree,
        ChainTree.tokens, AtomTree.tokens,
        spaced_append_cons _ (List.cons_ne_nil _ _) (ChainTree.tokens_ne_nil _), spaced_singleton,
        List.append_assoc]
      rfl

/-- **An axis is written as its derivation**, with spaces between the tokens. -/
theorem IsAxis.toList_axisText {gs : List Group} (h : IsAxis gs) :
    (axisText gs).toList = spaced (axisTree gs).tokens := by
  induction gs with
  | nil => exact absurd rfl h.ne_nil
  | cons g gs ih =>
    have hfirst := toList_groupText (h.group_ne_nil g List.mem_cons_self)
    cases gs with
    | nil =>
      rw [axisText, List.map_singleton, String.intercalate_singleton, hfirst, axisTree,
        SumTree.tokens]
    | cons next gs =>
      have ih := ih h.tail
      rw [axisText, List.map_cons] at ih ⊢
      rw [List.map_cons, String.intercalate_cons_cons, String.toList_append, String.toList_append,
        hfirst, ih, axisTree, SumTree.tokens,
        spaced_append_cons _ (ChainTree.tokens_ne_nil _) (SumTree.tokens_ne_nil _),
        List.append_assoc]
      rfl

/-! ## The groups of the derivation -/

theorem expressions_groupTree {g : Group} (hg : g ≠ []) :
    (groupTree g).expressions = g.map .single := by
  induction g with
  | nil => exact absurd rfl hg
  | cons id ids ih =>
    cases ids with
    | nil => rw [groupTree, ChainTree.expressions, AtomTree.expression, List.map_singleton]
    | cons next ids =>
      rw [groupTree, ChainTree.expressions, AtomTree.expression, ih (List.cons_ne_nil _ _)]
      rfl

theorem groupsNested_single (g : Group) : groupsNested (g.map .single) = [g] := by
  induction g with
  | nil => rw [List.map_nil, groupsNested]
  | cons id ids ih =>
    rw [List.map_cons, groupsNested, ih, groups]
    rfl

theorem groups_groupTree {g : Group} (hg : g ≠ []) : (groupTree g).expression.groups = [g] := by
  rw [ChainTree.expression_eq, expressions_groupTree hg]
  match g with
  | [] => exact absurd rfl hg
  | [id] => rw [List.map_singleton, collapse, groups]
  | id :: next :: ids =>
    rw [List.map_cons, List.map_cons, collapse_cons_cons, groups]
    exact groupsNested_single (id :: next :: ids)

theorem expressions_axisTree {gs : List Group} (hgs : gs ≠ []) :
    (axisTree gs).expressions = gs.map fun g => (groupTree g).expression := by
  induction gs with
  | nil => exact absurd rfl hgs
  | cons g gs ih =>
    cases gs with
    | nil => rw [axisTree, SumTree.expressions, List.map_singleton]
    | cons next gs =>
      rw [axisTree, SumTree.expressions, ih (List.cons_ne_nil _ _)]
      rfl

/-- **The derivation of an axis stands for its groups.** -/
theorem IsAxis.groups_axisTree {gs : List Group} (h : IsAxis gs) :
    (axisTree gs).expression.groups = gs := by
  have hstacked : groupsStacked (gs.map fun g => (groupTree g).expression) = gs := by
    have hsingle : ∀ g ∈ gs, (groupTree g).expression.groups = [g] :=
      fun g hmem => groups_groupTree (h.group_ne_nil g hmem)
    rw [groupsStacked_eq, List.flatMap_map, List.flatMap_congr hsingle, List.flatMap_singleton']
  rw [SumTree.expression_eq, expressions_axisTree h.ne_nil]
  match gs with
  | [] => exact absurd rfl h.ne_nil
  | [g] =>
    rw [List.map_singleton, collapse, groups_groupTree (h.group_ne_nil g List.mem_cons_self)]
  | g :: next :: gs =>
    rw [List.map_cons, List.map_cons, collapse_cons_cons, groups]
    exact hstacked

/-! ## Reading an axis -/

theorem isPlain_of_mem_groupTree {g : Group} (hg : g ≠ []) (hname : ∀ id ∈ g, IsName id) :
    ∀ t ∈ (groupTree g).tokens, IsPlain t := by
  induction g with
  | nil => exact absurd rfl hg
  | cons id ids ih =>
    have hid : IsPlain (.name id) := hname id List.mem_cons_self
    cases ids with
    | nil =>
      intro t ht
      rw [groupTree, ChainTree.tokens, AtomTree.tokens, List.mem_singleton] at ht
      rw [ht]
      exact hid
    | cons next ids =>
      have ih := ih (List.cons_ne_nil _ _) fun id hmem => hname id (List.mem_cons_of_mem _ hmem)
      intro t ht
      rw [groupTree, ChainTree.tokens, AtomTree.tokens, List.singleton_append, List.mem_cons,
        List.mem_cons] at ht
      rcases ht with rfl | rfl | ht
      · exact hid
      · trivial
      · exact ih t ht

theorem IsAxis.isPlain {gs : List Group} (h : IsAxis gs) :
    ∀ t ∈ (axisTree gs).tokens, IsPlain t := by
  induction gs with
  | nil => exact absurd rfl h.ne_nil
  | cons g gs ih =>
    have hfirst := isPlain_of_mem_groupTree (h.group_ne_nil g List.mem_cons_self)
      (h.isName g List.mem_cons_self)
    cases gs with
    | nil =>
      rw [axisTree, SumTree.tokens]
      exact hfirst
    | cons next gs =>
      intro t ht
      rw [axisTree, SumTree.tokens, List.mem_append, List.mem_cons] at ht
      rcases ht with ht | rfl | ht
      · exact hfirst t ht
      · trivial
      · exact ih h.tail t ht

/-- **An axis in writing is read as its derivation.** -/
theorem IsAxis.ofText_spaced {gs : List Group} (h : IsAxis gs) :
    ofText (String.ofList (spaced (axisTree gs).tokens)) = .ok (axisTree gs).expression := by
  rw [ofText_eq_ok_iff, String.toList_ofList, tokens_spaced h.isPlain]
  exact ⟨axisTree gs, rfl, rfl⟩

end SurveyTables.Expression
