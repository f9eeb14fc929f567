import SurveyTables.Proofs.Expression.Printing

/-!
# Expressions in writing

The expressions that can be read are the well-formed ones, and each of them is read as it is written.

* `WellFormed`: chains and sums have several items, of the right kinds, and the ids can be named;
* `SumTree.ids_expression`, **`SumTree.tokens_text`**: the ids of a derivation, and its tokens as those of
  the expression in writing;
* `WellFormed.exists_tree`, `SumTree.wellFormed`: the well-formed expressions are those of derivations;
* **`ofText_text`**: writing and reading are inverse.
-/

namespace SurveyTables.Expression

/-- The expression can be an item of a chain. -/
def IsAtom : Expression → Prop
  | .single _ | .paren _ => True
  | .nest _ | .sum _ => False

/-- The expression can be an item of a sum. -/
def IsChain : Expression → Prop
  | .single _ | .paren _ | .nest _ => True
  | .sum _ => False

/-- Every chain in the expression has at least two items, which are variables or groups. Every sum has at
least two items, which are not sums themselves. The id of every variable can be named. -/
inductive WellFormed : Expression → Prop where
  | single {id : String} : IsName id → WellFormed (.single id)
  | nest {items : List Expression} : 2 ≤ items.length → (∀ e ∈ items, e.IsAtom) →
    (∀ e ∈ items, WellFormed e) → WellFormed (.nest items)
  | sum {items : List Expression} : 2 ≤ items.length → (∀ e ∈ items, e.IsChain) →
    (∀ e ∈ items, WellFormed e) → WellFormed (.sum items)
  | paren {inner : Expression} : WellFormed inner → WellFormed (.paren inner)

theorem IsAtom.isChain {e : Expression} (h : e.IsAtom) : e.IsChain := by
  cases e with
  | single | paren => trivial
  | nest | sum => exact h.elim

theorem WellFormed.isName {e : Expression} (h : e.WellFormed) : ∀ id ∈ e.ids, IsName id := by
  induction h with
  | single hname =>
    rw [ids]
    exact List.forall_mem_singleton.mpr hname
  | nest _ _ _ ih | sum _ _ _ ih =>
    intro id hid
    rw [ids, idsAll_eq, List.mem_flatMap] at hid
    obtain ⟨e, he, hid⟩ := hid
    exact ih e he id hid
  | paren _ ih => rwa [ids]

/-! ## Items that are wrapped up -/

section Collapse

variable {es : List Expression}

theorem collapse_of_two_le (wrap : List Expression → Expression) (h : 2 ≤ es.length) :
    collapse wrap es = wrap es := by
  match es, h with
  | e :: f :: es, _ => rfl

theorem apply_collapse {α : Type} {wrap : List Expression → Expression} (f : Expression → α)
    (g : List Expression → α) (hwrap : ∀ es, f (wrap es) = g es) (hsingle : ∀ e, f e = g [e])
    (es : List Expression) : f (collapse wrap es) = g es := by
  match es with
  | [] => exact hwrap []
  | [e] => exact hsingle e
  | e :: f :: es => exact hwrap (e :: f :: es)

theorem ids_collapse_nest : ∀ es : List Expression, (collapse .nest es).ids = es.flatMap ids :=
  apply_collapse ids _ (fun es => by rw [ids, idsAll_eq]) fun e => by rw [List.flatMap_singleton]

theorem ids_collapse_sum : ∀ es : List Expression, (collapse .sum es).ids = es.flatMap ids :=
  apply_collapse ids _ (fun es => by rw [ids, idsAll_eq]) fun e => by rw [List.flatMap_singleton]

theorem text_collapse_nest :
    ∀ es : List Expression, (collapse .nest es).text = " > ".intercalate (es.map text) :=
  apply_collapse text _ (fun es => by rw [text, texts_eq]) fun e => by
    rw [List.map_singleton, String.intercalate_singleton]

theorem text_collapse_sum :
    ∀ es : List Expression, (collapse .sum es).text = " + ".intercalate (es.map text) :=
  apply_collapse text _ (fun es => by rw [text, texts_eq]) fun e => by
    rw [List.map_singleton, String.intercalate_singleton]

theorem wellFormed_collapse_nest (hne : es ≠ []) (h : ∀ e ∈ es, e.WellFormed ∧ e.IsAtom) :
    (collapse .nest es).WellFormed ∧ (collapse .nest es).IsChain := by
  match es with
  | [] => exact absurd rfl hne
  | [e] =>
    obtain ⟨hwell, hatom⟩ := h e List.mem_cons_self
    exact ⟨hwell, hatom.isChain⟩
  | e :: f :: es =>
    rw [collapse_of_two_le _ (by simp)]
    exact ⟨.nest (by simp) (fun e he => (h e he).2) fun e he => (h e he).1, trivial⟩

theorem wellFormed_collapse_sum (hne : es ≠ []) (h : ∀ e ∈ es, e.WellFormed ∧ e.IsChain) :
    (collapse .sum es).WellFormed := by
  match es with
  | [] => exact absurd rfl hne
  | [e] => exact (h e List.mem_cons_self).1
  | e :: f :: es =>
    rw [collapse_of_two_le _ (by simp)]
    exact .sum (by simp) (fun e he => (h e he).2) fun e he => (h e he).1

end Collapse

/-! ## The ids of a derivation -/

/-- The id that a token names. -/
def id? : Token → Option String
  | .name id => some id
  | _ => none

mutual

theorem SumTree.ids_expressions :
    ∀ s : SumTree, s.expressions.flatMap ids = s.tokens.filterMap id?
  | .last c => by
    rw [SumTree.expressions, SumTree.tokens, List.flatMap_singleton, c.expression_eq,
      ids_collapse_nest, c.ids_expressions]
  | .plus c rest => by
    rw [SumTree.expressions, SumTree.tokens, List.flatMap_cons, c.expression_eq, ids_collapse_nest,
      c.ids_expressions, rest.ids_expressions, List.filterMap_append,
      List.filterMap_cons_none (by rfl)]

theorem ChainTree.ids_expressions :
    ∀ c : ChainTree, c.expressions.flatMap ids = c.tokens.filterMap id?
  | .last a => by
    rw [ChainTree.expressions, ChainTree.tokens, List.flatMap_singleton, a.ids_expression]
  | .greater a rest => by
    rw [ChainTree.expressions, ChainTree.tokens, List.flatMap_cons, a.ids_expression,
      rest.ids_expressions, List.filterMap_append, List.filterMap_cons_none (by rfl)]

theorem AtomTree.ids_expression : ∀ a : AtomTree, a.expression.ids = a.tokens.filterMap id?
  | .name id => by
    rw [AtomTree.expression, AtomTree.tokens, ids]
    rfl
  | .paren s => by
    rw [AtomTree.expression, AtomTree.tokens, ids, s.expression_eq, ids_collapse_sum,
      s.ids_expressions, List.cons_append, List.filterMap_cons_none (by rfl), List.filterMap_append]
    simp [id?]

end

theorem SumTree.ids_expression (s : SumTree) : s.expression.ids = s.tokens.filterMap id? := by
  rw [s.expression_eq, ids_collapse_sum, s.ids_expressions]

theorem SumTree.mem_ids_iff {s : SumTree} {id : String} :
    id ∈ s.expression.ids ↔ .name id ∈ s.tokens := by
  rw [s.ids_expression, List.mem_filterMap]
  constructor
  · rintro ⟨t, ht, hid⟩
    cases t with
    | name id' =>
      obtain rfl := Option.some.inj hid
      exact ht
    | byWord | plus | greater | leftParen | rightParen | illegal c => exact nomatch hid
  · intro h
    exact ⟨_, h, rfl⟩

/-! ## The text of a derivation -/

theorem SumTree.text_plus (c : ChainTree) (rest : SumTree) :
    (SumTree.plus c rest).expression.text =
      c.expression.text ++ " + " ++ rest.expression.text := by
  obtain ⟨e, es, h⟩ := rest.exists_expressions_eq
  rw [SumTree.expression_eq, text_collapse_sum, SumTree.expressions, rest.expression_eq,
    text_collapse_sum, h, List.map_cons, List.map_cons, String.intercalate_cons_cons]

theorem ChainTree.text_greater (a : AtomTree) (rest : ChainTree) :
    (ChainTree.greater a rest).expression.text =
      a.expression.text ++ " > " ++ rest.expression.text := by
  obtain ⟨e, es, h⟩ := rest.exists_expressions_eq
  rw [ChainTree.expression_eq, text_collapse_nest, ChainTree.expressions, rest.expression_eq,
    text_collapse_nest, h, List.map_cons, List.map_cons, String.intercalate_cons_cons]

mutual

/-- **The expression in writing has the tokens of its derivation.** -/
theorem SumTree.tokens_text : ∀ s : SumTree, (∀ id, .name id ∈ s.tokens → IsName id) →
    Expression.tokens s.expression.text.toList = s.tokens
  | .last c, h => by
    rw [SumTree.tokens] at h ⊢
    rw [SumTree.expression]
    exact c.tokens_text h
  | .plus c rest, h => by
    rw [SumTree.tokens] at h ⊢
    have hc := c.tokens_text fun id hid => h id (List.mem_append_left _ hid)
    have hrest := rest.tokens_text fun id hid =>
      h id (List.mem_append_right _ (List.mem_cons_of_mem _ hid))
    have hsign : " + ".toList = [' ', '+', ' '] := rfl
    rw [SumTree.text_plus, String.toList_append, String.toList_append, List.append_assoc, hsign,
      List.cons_append, tokens_append (endsName_cons.mpr rfl), tokens_space, List.cons_append,
      tokens_plus, List.singleton_append, tokens_space, hc, hrest]

theorem ChainTree.tokens_text : ∀ c : ChainTree, (∀ id, .name id ∈ c.tokens → IsName id) →
    Expression.tokens c.expression.text.toList = c.tokens
  | .last a, h => by
    rw [ChainTree.tokens] at h ⊢
    rw [ChainTree.expression]
    exact a.tokens_text h
  | .greater a rest, h => by
    rw [ChainTree.tokens] at h ⊢
    have ha := a.tokens_text fun id hid => h id (List.mem_append_left _ hid)
    have hrest := rest.tokens_text fun id hid =>
      h id (List.mem_append_right _ (List.mem_cons_of_mem _ hid))
    have hsign : " > ".toList = [' ', '>', ' '] := rfl
    rw [ChainTree.text_greater, String.toList_append, String.toList_append, List.append_assoc, hsign,
      List.cons_append, tokens_append (endsName_cons.mpr rfl), tokens_space, List.cons_append,
      tokens_greater, List.singleton_append, tokens_space, ha, hrest]

theorem AtomTree.tokens_text : ∀ a : AtomTree, (∀ id, .name id ∈ a.tokens → IsName id) →
    Expression.tokens a.expression.text.toList = a.tokens
  | .name id, h => by
    rw [AtomTree.tokens] at h ⊢
    rw [AtomTree.expression, text]
    exact tokens_name (h id (List.mem_singleton_self _))
  | .paren s, h => by
    rw [AtomTree.tokens] at h ⊢
    have hs := s.tokens_text fun id hid =>
      h id (List.mem_append_left _ (List.mem_cons_of_mem _ hid))
    have hleft : "(".toList = ['('] := rfl
    have hright : ")".toList = [')'] := rfl
    rw [AtomTree.expression, text, String.toList_append, String.toList_append, hleft, hright,
      tokens_append (endsName_cons.mpr rfl), List.singleton_append, tokens_leftParen, hs,
      tokens_rightParen, tokens_nil]

end

/-! ## Well-formed expressions have derivations -/

theorem SumTree.exists_atom {s : SumTree} (h : s.expression.IsAtom) :
    ∃ a : AtomTree, a.expression = s.expression := by
  cases s with
  | last c =>
    cases c with
    | last a => exact ⟨a, by rw [SumTree.expression, ChainTree.expression]⟩
    | greater a rest =>
      rw [SumTree.expression, ChainTree.expression] at h
      exact h.elim
  | plus c rest =>
    rw [SumTree.expression] at h
    exact h.elim

theorem SumTree.exists_chain {s : SumTree} (h : s.expression.IsChain) :
    ∃ c : ChainTree, c.expression = s.expression := by
  cases s with
  | last c => exact ⟨c, by rw [SumTree.expression]⟩
  | plus c rest =>
    rw [SumTree.expression] at h
    exact h.elim

theorem exists_chainTree {es : List Expression} (hne : es ≠ [])
    (h : ∀ e ∈ es, ∃ a : AtomTree, a.expression = e) : ∃ c : ChainTree, c.expressions = es := by
  induction es with
  | nil => exact absurd rfl hne
  | cons e es ih =>
    obtain ⟨a, rfl⟩ := h e List.mem_cons_self
    cases es with
    | nil => exact ⟨.last a, by rw [ChainTree.expressions]⟩
    | cons f es =>
      obtain ⟨c, hc⟩ := ih (List.cons_ne_nil _ _) fun e he => h e (List.mem_cons_of_mem _ he)
      exact ⟨.greater a c, by rw [ChainTree.expressions, hc]⟩

theorem exists_sumTree {es : List Expression} (hne : es ≠ [])
    (h : ∀ e ∈ es, ∃ c : ChainTree, c.expression = e) : ∃ s : SumTree, s.expressions = es := by
  induction es with
  | nil => exact absurd rfl hne
  | cons e es ih =>
    obtain ⟨c, rfl⟩ := h e List.mem_cons_self
    cases es with
    | nil => exact ⟨.last c, by rw [SumTree.expressions]⟩
    | cons f es =>
      obtain ⟨s, hs⟩ := ih (List.cons_ne_nil _ _) fun e he => h e (List.mem_cons_of_mem _ he)
      exact ⟨.plus c s, by rw [SumTree.expressions, hs]⟩

theorem ne_nil_of_two_le {es : List Expression} (h : 2 ≤ es.length) : es ≠ [] :=
  List.ne_nil_of_length_pos (by omega)

/-- **A well-formed expression has a derivation.** -/
theorem WellFormed.exists_tree {e : Expression} (h : e.WellFormed) :
    ∃ s : SumTree, s.expression = e := by
  induction h with
  | single _ =>
    exact ⟨.last (.last (.name _)), by
      rw [SumTree.expression, ChainTree.expression, AtomTree.expression]⟩
  | nest hlength hatoms _ ih =>
    obtain ⟨c, hc⟩ := exists_chainTree (ne_nil_of_two_le hlength) fun e he => by
      obtain ⟨s, rfl⟩ := ih e he
      exact SumTree.exists_atom (hatoms _ he)
    exact ⟨.last c, by rw [SumTree.expression, c.expression_eq, hc, collapse_of_two_le _ hlength]⟩
  | sum hlength hchains _ ih =>
    obtain ⟨s, hs⟩ := exists_sumTree (ne_nil_of_two_le hlength) fun e he => by
      obtain ⟨s, rfl⟩ := ih e he
      exact SumTree.exists_chain (hchains _ he)
    exact ⟨s, by rw [s.expression_eq, hs, collapse_of_two_le _ hlength]⟩
  | paren _ ih =>
    obtain ⟨s, rfl⟩ := ih
    exact ⟨.last (.last (.paren s)), by
      rw [SumTree.expression, ChainTree.expression, AtomTree.expression]⟩

/-! ## Derivations have well-formed expressions -/

mutual

theorem SumTree.wellFormed : ∀ s : SumTree, (∀ id, .name id ∈ s.tokens → IsName id) →
    s.expression.WellFormed
  | s, h => by
    obtain ⟨e, es, hes⟩ := s.exists_expressions_eq
    rw [s.expression_eq]
    exact wellFormed_collapse_sum (by rw [hes]; exact List.cons_ne_nil _ _) (s.wellFormed_of_mem h)

theorem SumTree.wellFormed_of_mem : ∀ s : SumTree, (∀ id, .name id ∈ s.tokens → IsName id) →
    ∀ e ∈ s.expressions, e.WellFormed ∧ e.IsChain
  | .last c, h, e, he => by
    rw [SumTree.tokens] at h
    rw [SumTree.expressions, List.mem_singleton] at he
    rw [he]
    exact c.wellFormed h
  | .plus c rest, h, e, he => by
    rw [SumTree.tokens] at h
    rw [SumTree.expressions, List.mem_cons] at he
    rcases he with rfl | he
    · exact c.wellFormed fun id hid => h id (List.mem_append_left _ hid)
    · exact rest.wellFormed_of_mem
        (fun id hid => h id (List.mem_append_right _ (List.mem_cons_of_mem _ hid))) e he

theorem ChainTree.wellFormed : ∀ c : ChainTree, (∀ id, .name id ∈ c.tokens → IsName id) →
    c.expression.WellFormed ∧ c.expression.IsChain
  | c, h => by
    obtain ⟨e, es, hes⟩ := c.exists_expressions_eq
    rw [c.expression_eq]
    exact wellFormed_collapse_nest (by rw [hes]; exact List.cons_ne_nil _ _)
      (c.wellFormed_of_mem h)

theorem ChainTree.wellFormed_of_mem : ∀ c : ChainTree, (∀ id, .name id ∈ c.tokens → IsName id) →
    ∀ e ∈ c.expressions, e.WellFormed ∧ e.IsAtom
  | .last a, h, e, he => by
    rw [ChainTree.tokens] at h
    rw [ChainTree.expressions, List.mem_singleton] at he
    rw [he]
    exact a.wellFormed h
  | .greater a rest, h, e, he => by
    rw [ChainTree.tokens] at h
    rw [ChainTree.expressions, List.mem_cons] at he
    rcases he with rfl | he
    · exact a.wellFormed fun id hid => h id (List.mem_append_left _ hid)
    · exact rest.wellFormed_of_mem
        (fun id hid => h id (List.mem_append_right _ (List.mem_cons_of_mem _ hid))) e he

theorem AtomTree.wellFormed : ∀ a : AtomTree, (∀ id, .name id ∈ a.tokens → IsName id) →
    a.expression.WellFormed ∧ a.expression.IsAtom
  | .name id, h => by
    rw [AtomTree.tokens] at h
    rw [AtomTree.expression]
    exact ⟨.single (h id (List.mem_singleton_self _)), trivial⟩
  | .paren s, h => by
    rw [AtomTree.tokens] at h
    rw [AtomTree.expression]
    exact ⟨.paren (s.wellFormed fun id hid =>
      h id (List.mem_append_left _ (List.mem_cons_of_mem _ hid))), trivial⟩

end

/-! ## Writing and reading -/

theorem WellFormed.ofText_eq {e : Expression} (h : e.WellFormed) : ofText e.text = .ok e := by
  obtain ⟨s, rfl⟩ := h.exists_tree
  have htokens := s.tokens_text fun id hid => h.isName id (SumTree.mem_ids_iff.mpr hid)
  exact (ofText_eq_ok_iff _ _).mpr ⟨s, htokens.symm, rfl⟩

theorem wellFormed_of_ofText {text : String} {e : Expression} (h : ofText text = .ok e) :
    e.WellFormed := by
  obtain ⟨s, hs, rfl⟩ := (ofText_eq_ok_iff text e).mp h
  exact s.wellFormed fun id hid => (isRun_of_mem_tokens (hs ▸ hid)).1

/-- **Writing and reading are inverse.** A well-formed expression is read as it is written. Whatever text
is read gives a well-formed expression, so that the expression in writing is read as the same one. -/
theorem ofText_text (e : Expression) : (e.WellFormed → ofText e.text = .ok e) ∧
    ∀ text, ofText text = .ok e → e.WellFormed ∧ ofText e.text = .ok e := by
  refine ⟨WellFormed.ofText_eq, fun text h => ?_⟩
  have hwell := wellFormed_of_ofText h
  exact ⟨hwell, hwell.ofText_eq⟩

/-- Groups in a group, a chain in a sum, and ids that look like the keyword. -/
def layered : Expression :=
  .sum [.single "by_1", .nest [.paren (.sum [.nest [.single "2020", .single "q.by"], .single "b"]),
    .paren (.paren (.single "y"))]]

theorem wellFormed_layered : layered.WellFormed := by
  have hchain : WellFormed (.nest [.single "2020", .single "q.by"]) :=
    .nest (by decide) (by simp [IsAtom])
      (List.forall_mem_cons.mpr ⟨.single (by decide),
        List.forall_mem_singleton.mpr (.single (by decide))⟩)
  have hgroup : WellFormed (.paren (.sum [.nest [.single "2020", .single "q.by"], .single "b"])) :=
    .paren (.sum (by decide) (by simp [IsChain])
      (List.forall_mem_cons.mpr ⟨hchain, List.forall_mem_singleton.mpr (.single (by decide))⟩))
  have hdouble : WellFormed (.paren (.paren (.single "y"))) := .paren (.paren (.single (by decide)))
  have hgroups := List.forall_mem_cons.mpr ⟨hgroup, List.forall_mem_singleton.mpr hdouble⟩
  exact .sum (by decide) (by simp [IsChain])
    (List.forall_mem_cons.mpr ⟨.single (by decide),
      List.forall_mem_singleton.mpr (.nest (by decide) (by simp [IsAtom]) hgroups)⟩)

/-- The expression is also read with other blanks, and is then well-formed. -/
theorem ofText_text_layered : layered.WellFormed ∧
    layered.text = "by_1 + (2020 > q.by + b) > ((y))" ∧ ofText layered.text = .ok layered ∧
    ofText "by_1+( 2020>q.by+b )>((y))" = .ok layered ∧
    layered.WellFormed ∧ ofText layered.text = .ok layered := by
  have hloose : ofText "by_1+( 2020>q.by+b )>((y))" = .ok layered := by cbv
  exact ⟨wellFormed_layered, by decide +kernel, (ofText_text layered).1 wellFormed_layered, hloose,
    (ofText_text layered).2 _ hloose⟩

end SurveyTables.Expression
