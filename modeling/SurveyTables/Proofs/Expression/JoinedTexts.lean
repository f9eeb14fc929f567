import SurveyTables.Proofs.Expression.WellFormed

/-!
# Groups of joined texts

The groups that a joined text stands for depend on its parts only through their groups.

* `products`: one group of each of two lists, joined; `groups_collapse_sum`, `groups_collapse_nest`;
* `SumTree.append`, `ChainTree.append`: derivations joined by a sign;
* `PlusEnclosed`, **`exists_chain_of_plusEnclosed`**: a text in which every `+` stands in parentheses is one
  chain;
* `ReadsChain`: the texts that can be joined by `>`;
* `Composes`, `Regroups`, **`readGroups_composes`**: what joined texts stand for, and which of them stand
  for the same.
-/

namespace SurveyTables.Expression

/-! ## Products of groups -/

/-- One group of each list, joined; the groups of the first list change slowest. -/
def products (gs hs : List Group) : List Group :=
  gs.flatMap fun g => hs.map fun h => g ++ h

theorem products_nil_left (hs : List Group) : products [[]] hs = hs := by
  simp [products]

theorem products_nil_right (gs : List Group) : products gs [[]] = gs := by
  simp [products]

theorem products_append (gs gs' hs : List Group) :
    products (gs ++ gs') hs = products gs hs ++ products gs' hs := by
  rw [products, List.flatMap_append]
  rfl

theorem products_assoc (gs hs ks : List Group) :
    products (products gs hs) ks = products gs (products hs ks) := by
  simp only [products, List.flatMap_assoc, List.flatMap_map, List.map_flatMap, List.map_map]
  refine List.flatMap_congr fun g _ => List.flatMap_congr fun h _ => List.map_congr_left fun k _ => ?_
  exact List.append_assoc g h k

theorem groupsNested_cons (e : Expression) (es : List Expression) :
    groupsNested (e :: es) = products e.groups (groupsNested es) := by
  rw [groupsNested]
  rfl

theorem groupsNested_append (es fs : List Expression) :
    groupsNested (es ++ fs) = products (groupsNested es) (groupsNested fs) := by
  induction es with
  | nil => rw [List.nil_append, groupsNested, products_nil_left]
  | cons e es ih => rw [List.cons_append, groupsNested_cons, groupsNested_cons, ih, products_assoc]

theorem groups_collapse_sum :
    ∀ es : List Expression, (collapse .sum es).groups = es.flatMap groups :=
  apply_collapse groups _ (fun es => by rw [groups, groupsStacked_eq]) fun e => by
    rw [List.flatMap_singleton]

theorem groups_collapse_nest :
    ∀ es : List Expression, (collapse .nest es).groups = groupsNested es :=
  apply_collapse groups _ (fun es => by rw [groups]) fun e => by
    rw [groupsNested, groupsNested]
    exact (products_nil_right e.groups).symm

/-! ## Derivations joined by a sign -/

/-- The chains of both sums, one sum after the other. -/
def SumTree.append : SumTree → SumTree → SumTree
  | .last c, t => .plus c t
  | .plus c rest, t => .plus c (rest.append t)

/-- The atoms of both chains, one chain after the other. -/
def ChainTree.append : ChainTree → ChainTree → ChainTree
  | .last a, d => .greater a d
  | .greater a rest, d => .greater a (rest.append d)

theorem SumTree.tokens_append : ∀ s t : SumTree,
    (s.append t).tokens = s.tokens ++ .plus :: t.tokens
  | .last c, t => by rw [SumTree.append, SumTree.tokens, SumTree.tokens]
  | .plus c rest, t => by
    rw [SumTree.append, SumTree.tokens, SumTree.tokens, rest.tokens_append t, List.append_assoc,
      List.cons_append]

theorem SumTree.expressions_append : ∀ s t : SumTree,
    (s.append t).expressions = s.expressions ++ t.expressions
  | .last c, t => by
    rw [SumTree.append, SumTree.expressions, SumTree.expressions, List.singleton_append]
  | .plus c rest, t => by
    rw [SumTree.append, SumTree.expressions, SumTree.expressions, rest.expressions_append t,
      List.cons_append]

theorem ChainTree.tokens_append : ∀ c d : ChainTree,
    (c.append d).tokens = c.tokens ++ .greater :: d.tokens
  | .last a, d => by rw [ChainTree.append, ChainTree.tokens, ChainTree.tokens]
  | .greater a rest, d => by
    rw [ChainTree.append, ChainTree.tokens, ChainTree.tokens, rest.tokens_append d,
      List.append_assoc, List.cons_append]

theorem ChainTree.expressions_append : ∀ c d : ChainTree,
    (c.append d).expressions = c.expressions ++ d.expressions
  | .last a, d => by
    rw [ChainTree.append, ChainTree.expressions, ChainTree.expressions, List.singleton_append]
  | .greater a rest, d => by
    rw [ChainTree.append, ChainTree.expressions, ChainTree.expressions, rest.expressions_append d,
      List.cons_append]

theorem SumTree.groups_append (s t : SumTree) :
    (s.append t).expression.groups = s.expression.groups ++ t.expression.groups := by
  rw [SumTree.expression_eq, groups_collapse_sum, s.expressions_append, List.flatMap_append,
    ← groups_collapse_sum, ← groups_collapse_sum, ← s.expression_eq, ← t.expression_eq]

theorem ChainTree.groups_append (c d : ChainTree) :
    (c.append d).expression.groups = products c.expression.groups d.expression.groups := by
  rw [ChainTree.expression_eq, groups_collapse_nest, c.expressions_append, groupsNested_append,
    ← groups_collapse_nest, ← groups_collapse_nest, ← c.expression_eq, ← d.expression_eq]

/-! ## Texts in which every `+` stands in parentheses -/

/-- In front of every `+` of the text more parentheses are opened than closed. -/
def PlusEnclosed (text : String) : Prop :=
  ∀ n < text.toList.length, text.toList[n]? = some '+' →
    (text.toList.take n).count ')' < (text.toList.take n).count '('

instance (text : String) : Decidable (PlusEnclosed text) :=
  inferInstanceAs (Decidable (∀ n < text.toList.length, _))

theorem sign_injective {b c : Char} (h : sign b = sign c) : b = c := by
  unfold sign at h
  split_ifs at h <;> simp_all

theorem word_ne_sign (w : List Char) (c : Char) : word w ≠ sign c := by
  unfold word sign
  split_ifs <;> exact nofun

theorem count_tokens {c : Char} (hblank : Text.isBlank c = false) (hname : isNameChar c = false)
    (cs : List Char) : (tokens cs).count (sign c) = cs.count c := by
  have hblanks : ∀ blanks : List Char, (∀ b ∈ blanks, Text.isBlank b = true) → blanks.count c = 0 := by
    intro blanks h
    refine List.count_eq_zero.mpr fun hc => ?_
    rw [h c hc] at hblank
    exact nomatch hblank
  induction cs using tokens.induct with
  | case1 cs hnone =>
    rw [tokens_of_nextToken?_eq_none hnone, List.count_nil,
      hblanks cs (isBlank_of_nextToken?_eq_none hnone)]
  | case2 cs t rest hsome ih =>
    rw [tokens_of_nextToken? hsome]
    obtain ⟨blanks, hb, ⟨w, -, hw, -, rfl, rfl⟩ | ⟨b, -, -, rfl, rfl⟩⟩ := nextToken?_cases hsome
    · have hword : w.count c = 0 := by
        refine List.count_eq_zero.mpr fun hc => ?_
        rw [hw c hc] at hname
        exact nomatch hname
      rw [List.count_cons_of_ne (word_ne_sign w c), ih, List.count_append, List.count_append,
        hblanks blanks hb, hword, Nat.zero_add, Nat.zero_add]
    · rw [List.count_append, hblanks blanks hb, Nat.zero_add]
      by_cases hbc : b = c
      · rw [hbc, List.count_cons_self, List.count_cons_self, ih]
      · rw [List.count_cons_of_ne (mt sign_injective hbc), List.count_cons_of_ne hbc, ih]

theorem exists_split_of_tokens {cs : List Char} {ts us : List Token}
    (h : tokens cs = ts ++ .plus :: us) :
    ∃ before behind, cs = before ++ '+' :: behind ∧ tokens before = ts := by
  induction cs using tokens.induct generalizing ts with
  | case1 cs hnone =>
    rw [tokens_of_nextToken?_eq_none hnone] at h
    simp at h
  | case2 cs t rest hsome ih =>
    rw [tokens_of_nextToken? hsome] at h
    obtain ⟨blanks, hb, hcases⟩ := nextToken?_cases hsome
    cases ts with
    | nil =>
      -- the first token is the `+`
      obtain ⟨rfl, -⟩ := List.cons.inj h
      obtain ⟨w, -, -, -, ht, -⟩ | ⟨c, -, -, ht, rfl⟩ := hcases
      · exact absurd ht.symm (word_ne_sign w '+')
      · obtain rfl : '+' = c := sign_injective ht
        have hblanks := tokens_blanks hb []
        rw [List.append_nil, tokens_nil] at hblanks
        exact ⟨blanks, rest, rfl, hblanks⟩
    | cons t' ts =>
      obtain ⟨rfl, hrest⟩ := List.cons.inj h
      obtain ⟨before, behind, rfl, rfl⟩ := ih hrest
      obtain ⟨w, hne, hw, hends, rfl, rfl⟩ | ⟨c, hblank, hname, rfl, rfl⟩ := hcases
      · have hbefore : EndsName before := by
          cases before with
          | nil => exact endsName_nil
          | cons b before => exact endsName_cons.mpr (endsName_cons.mp hends)
        exact ⟨blanks ++ (w ++ before), behind, by simp,
          tokens_of_nextToken? (nextToken?_word hb hne hw hbefore)⟩
      · exact ⟨blanks ++ c :: before, behind, by simp,
          tokens_of_nextToken? (nextToken?_sign hb hblank hname)⟩

mutual

theorem SumTree.count_tokens : ∀ s : SumTree,
    s.tokens.count .leftParen = s.tokens.count .rightParen
  | .last c => by
    rw [SumTree.tokens, c.count_tokens]
  | .plus c rest => by
    rw [SumTree.tokens, List.count_append, List.count_append, List.count_cons_of_ne (by decide),
      List.count_cons_of_ne (by decide), c.count_tokens, rest.count_tokens]

theorem ChainTree.count_tokens : ∀ c : ChainTree,
    c.tokens.count .leftParen = c.tokens.count .rightParen
  | .last a => by
    rw [ChainTree.tokens, a.count_tokens]
  | .greater a rest => by
    rw [ChainTree.tokens, List.count_append, List.count_append, List.count_cons_of_ne (by decide),
      List.count_cons_of_ne (by decide), a.count_tokens, rest.count_tokens]

theorem AtomTree.count_tokens : ∀ a : AtomTree,
    a.tokens.count .leftParen = a.tokens.count .rightParen
  | .name id => by
    rw [AtomTree.tokens, List.count_singleton, List.count_singleton]
    rfl
  | .paren s => by
    simp [AtomTree.tokens, s.count_tokens]

end

/-- **A text in which every `+` stands in parentheses** is one chain. -/
theorem exists_chain_of_plusEnclosed {text : String} {s : SumTree}
    (hs : s.tokens = tokens text.toList) (h : PlusEnclosed text) : ∃ c, s = .last c := by
  cases s with
  | last c => exact ⟨c, rfl⟩
  | plus c rest =>
    rw [SumTree.tokens] at hs
    obtain ⟨before, behind, htext, hbefore⟩ := exists_split_of_tokens hs.symm
    have hlt := h before.length (by rw [htext]; simp) (by rw [htext]; simp)
    have hopened := count_tokens (c := '(') rfl rfl before
    have hclosed := count_tokens (c := ')') rfl rfl before
    have hbalanced := c.count_tokens
    rw [hbefore] at hopened hclosed
    rw [htext, List.take_left, ← hopened, ← hclosed] at hlt
    exact absurd hbalanced (Nat.ne_of_gt hlt)

/-! ## Joined texts -/

/-- The groups that a text stands for, if it is an expression. -/
def readGroups (text : String) : Except ReadError (List Group) :=
  groups <$> ofText text

/-- Two texts with `+` between them. -/
def stacked (s t : String) : String := s ++ "+" ++ t

/-- Two texts with `>` between them. -/
def nested (s t : String) : String := s ++ ">" ++ t

/-- A text in parentheses. -/
def grouped (s : String) : String := "(" ++ s ++ ")"

variable {s t u : String} {gs hs ks : List Group}

theorem readGroups_eq_ok_iff : readGroups s = .ok gs ↔
    ∃ tree : SumTree, tree.tokens = tokens s.toList ∧ tree.expression.groups = gs := by
  constructor
  · intro h
    cases hread : ofText s with
    | error err =>
      rw [readGroups, hread] at h
      exact nomatch h
    | ok e =>
      rw [readGroups, hread] at h
      obtain ⟨tree, htokens, rfl⟩ := (ofText_eq_ok_iff s e).mp hread
      exact ⟨tree, htokens, Except.ok.inj h⟩
  · rintro ⟨tree, htokens, rfl⟩
    rw [readGroups, (ofText_eq_ok_iff s _).mpr ⟨tree, htokens, rfl⟩]
    rfl

theorem tokens_stacked (s t : String) :
    tokens (stacked s t).toList = tokens s.toList ++ .plus :: tokens t.toList := by
  have hsign : "+".toList = ['+'] := rfl
  rw [stacked, String.toList_append, String.toList_append, List.append_assoc, hsign,
    List.singleton_append, tokens_append (endsName_cons.mpr rfl), tokens_plus]

theorem tokens_nested (s t : String) :
    tokens (nested s t).toList = tokens s.toList ++ .greater :: tokens t.toList := by
  have hsign : ">".toList = ['>'] := rfl
  rw [nested, String.toList_append, String.toList_append, List.append_assoc, hsign,
    List.singleton_append, tokens_append (endsName_cons.mpr rfl), tokens_greater]

theorem tokens_grouped (s : String) :
    tokens (grouped s).toList = .leftParen :: tokens s.toList ++ [.rightParen] := by
  have hleft : "(".toList = ['('] := rfl
  have hright : ")".toList = [')'] := rfl
  rw [grouped, String.toList_append, String.toList_append, hleft, hright,
    tokens_append (endsName_cons.mpr rfl), List.singleton_append, tokens_leftParen,
    tokens_rightParen, tokens_nil]

theorem readGroups_stacked (h : readGroups s = .ok gs) (h' : readGroups t = .ok hs) :
    readGroups (stacked s t) = .ok (gs ++ hs) := by
  obtain ⟨left, hleft, rfl⟩ := readGroups_eq_ok_iff.mp h
  obtain ⟨right, hright, rfl⟩ := readGroups_eq_ok_iff.mp h'
  refine readGroups_eq_ok_iff.mpr ⟨left.append right, ?_, left.groups_append right⟩
  rw [left.tokens_append, hleft, hright, tokens_stacked]

/-- The text is a chain, which stands for the groups. -/
def ReadsChain (s : String) (gs : List Group) : Prop :=
  ∃ c : ChainTree, c.tokens = tokens s.toList ∧ c.expression.groups = gs

theorem ReadsChain.readGroups_eq (h : ReadsChain s gs) : readGroups s = .ok gs := by
  obtain ⟨c, htokens, rfl⟩ := h
  refine readGroups_eq_ok_iff.mpr ⟨.last c, ?_, ?_⟩
  · rw [SumTree.tokens, htokens]
  · rw [SumTree.expression]

theorem readsChain_of_plusEnclosed (h : readGroups s = .ok gs) (hplus : PlusEnclosed s) :
    ReadsChain s gs := by
  obtain ⟨tree, htokens, rfl⟩ := readGroups_eq_ok_iff.mp h
  obtain ⟨c, rfl⟩ := exists_chain_of_plusEnclosed htokens hplus
  rw [SumTree.tokens] at htokens
  exact ⟨c, htokens, by rw [SumTree.expression]⟩

theorem readsChain_grouped (h : readGroups s = .ok gs) : ReadsChain (grouped s) gs := by
  obtain ⟨tree, htokens, rfl⟩ := readGroups_eq_ok_iff.mp h
  refine ⟨.last (.paren tree), ?_, ?_⟩
  · rw [ChainTree.tokens, AtomTree.tokens, htokens, tokens_grouped]
  · rw [ChainTree.expression, AtomTree.expression, groups]

theorem ReadsChain.nested (h : ReadsChain s gs) (h' : ReadsChain t hs) :
    ReadsChain (nested s t) (products gs hs) := by
  obtain ⟨c, hc, rfl⟩ := h
  obtain ⟨d, hd, rfl⟩ := h'
  refine ⟨c.append d, ?_, c.groups_append d⟩
  rw [c.tokens_append, hc, hd, tokens_nested]

/-! ## What joined texts stand for -/

/-- What is read from two texts that are joined: `+` puts their groups one after the other, parentheses
change nothing, and `>` joins each group of the left text with each of the right one. A text need not be
in parentheses for that if every `+` in it is. -/
structure Composes (s t : String) (gs hs : List Group) : Prop where
  stacked_eq : readGroups (stacked s t) = .ok (gs ++ hs)
  grouped_eq : readGroups (grouped s) = .ok gs
  nested_eq : readGroups (nested (grouped s) (grouped t)) = .ok (products gs hs)
  nested_eq_of_plusEnclosed : PlusEnclosed s → PlusEnclosed t →
    readGroups (nested s t) = .ok (products gs hs)

/-- Both texts are expressions, which stand for the same groups in the same order. -/
def SameGroups (s t : String) : Prop :=
  ∃ gs, readGroups s = .ok gs ∧ readGroups t = .ok gs

/-- Chains that stand for the same groups: with and without parentheses around a factor, and put together
from the left or from the right. -/
structure RegroupsChain (s t u : String) : Prop where
  parens_left : SameGroups (nested (grouped s) t) (nested s t)
  parens_right : SameGroups (nested s (grouped t)) (nested s t)
  assoc_left : SameGroups (nested (grouped (nested s t)) u) (nested (nested s t) u)
  assoc_right : SameGroups (nested s (grouped (nested t u))) (nested (nested s t) u)

/-- Texts that stand for the same groups: with and without parentheses that are not needed, with sums and
chains put together from the left or from the right, and with the left factor of a chain multiplied out.
Chains need parentheses around their factors only where a `+` stands in no others. -/
structure Regroups (s t u : String) : Prop where
  parens : SameGroups (grouped s) s
  parens_left : SameGroups (stacked (grouped s) t) (stacked s t)
  parens_right : SameGroups (stacked s (grouped t)) (stacked s t)
  stacked_left : SameGroups (stacked (grouped (stacked s t)) u) (stacked (stacked s t) u)
  stacked_right : SameGroups (stacked s (grouped (stacked t u))) (stacked (stacked s t) u)
  nested_left : SameGroups (nested (grouped (nested (grouped s) (grouped t))) (grouped u))
    (nested (nested (grouped s) (grouped t)) (grouped u))
  nested_right : SameGroups (nested (grouped s) (grouped (nested (grouped t) (grouped u))))
    (nested (nested (grouped s) (grouped t)) (grouped u))
  multiplied_out : SameGroups (nested (grouped (stacked s t)) (grouped u))
    (stacked (nested (grouped s) (grouped u)) (nested (grouped t) (grouped u)))
  chain : PlusEnclosed s → PlusEnclosed t → PlusEnclosed u → RegroupsChain s t u

theorem ReadsChain.regroups (h : ReadsChain s gs) (h' : ReadsChain t hs) (h'' : ReadsChain u ks) :
    RegroupsChain s t u := by
  have hst := h.nested h'
  have htu := h'.nested h''
  have hall := (hst.nested h'').readGroups_eq
  have hright := (h.nested (readsChain_grouped htu.readGroups_eq)).readGroups_eq
  rw [← products_assoc] at hright
  exact
    { parens_left := ⟨_, ((readsChain_grouped h.readGroups_eq).nested h').readGroups_eq,
        hst.readGroups_eq⟩
      parens_right := ⟨_, (h.nested (readsChain_grouped h'.readGroups_eq)).readGroups_eq,
        hst.readGroups_eq⟩
      assoc_left := ⟨_, ((readsChain_grouped hst.readGroups_eq).nested h'').readGroups_eq, hall⟩
      assoc_right := ⟨_, hright, hall⟩ }

theorem regroups (h : readGroups s = .ok gs) (h' : readGroups t = .ok hs)
    (h'' : readGroups u = .ok ks) : Regroups s t u := by
  have hs' := readsChain_grouped h
  have ht' := readsChain_grouped h'
  have hu' := readsChain_grouped h''
  have hchain := hs'.regroups ht' hu'
  have hst := readGroups_stacked h h'
  have hall := readGroups_stacked hst h''
  have hright := readGroups_stacked h (readsChain_grouped (readGroups_stacked h' h'')).readGroups_eq
  have hproduct := ((readsChain_grouped hst).nested hu').readGroups_eq
  rw [← List.append_assoc] at hright
  rw [products_append] at hproduct
  exact
    { parens := ⟨gs, hs'.readGroups_eq, h⟩
      parens_left := ⟨_, readGroups_stacked hs'.readGroups_eq h', hst⟩
      parens_right := ⟨_, readGroups_stacked h ht'.readGroups_eq, hst⟩
      stacked_left := ⟨_, readGroups_stacked (readsChain_grouped hst).readGroups_eq h'', hall⟩
      stacked_right := ⟨_, hright, hall⟩
      nested_left := hchain.assoc_left
      nested_right := hchain.assoc_right
      multiplied_out := ⟨_, hproduct, readGroups_stacked (hs'.nested hu').readGroups_eq
        (ht'.nested hu').readGroups_eq⟩
      chain := fun hs ht hu => (readsChain_of_plusEnclosed h hs).regroups
        (readsChain_of_plusEnclosed h' ht) (readsChain_of_plusEnclosed h'' hu) }

/-- **Joined texts are read as their parts are**, with `+`, in parentheses and with `>`. Parentheses that
are not needed change nothing. -/
theorem readGroups_composes (h : readGroups s = .ok gs) (h' : readGroups t = .ok hs) :
    Composes s t gs hs ∧ ∀ u ks, readGroups u = .ok ks → Regroups s t u where
  left :=
    { stacked_eq := readGroups_stacked h h'
      grouped_eq := (readsChain_grouped h).readGroups_eq
      nested_eq := ((readsChain_grouped h).nested (readsChain_grouped h')).readGroups_eq
      nested_eq_of_plusEnclosed := fun hs ht =>
        ((readsChain_of_plusEnclosed h hs).nested (readsChain_of_plusEnclosed h' ht)).readGroups_eq }
  right _ _ := regroups h h'

/-- A text with a `+` outside of parentheses and two without. -/
theorem readGroups_composes_sum :
    (readGroups "c>(d + e)" = .ok [["c", "d"], ["c", "e"]] ∧ readGroups "f" = .ok [["f"]] ∧
      readGroups "a+b" = .ok [["a"], ["b"]] ∧ PlusEnclosed "c>(d + e)" ∧ PlusEnclosed "f" ∧
      ¬ PlusEnclosed "a+b") ∧
    readGroups "c>(d + e)>f" = .ok [["c", "d", "f"], ["c", "e", "f"]] ∧
    Regroups "c>(d + e)" "f" "a+b" := by
  have hproduct : readGroups "c>(d + e)" = .ok [["c", "d"], ["c", "e"]] := by cbv
  have hsingle : readGroups "f" = .ok [["f"]] := by cbv
  have hsum : readGroups "a+b" = .ok [["a"], ["b"]] := by cbv
  have henclosed : PlusEnclosed "c>(d + e)" := by decide
  have hplain : PlusEnclosed "f" := by decide
  obtain ⟨hcomposes, hregroups⟩ := readGroups_composes hproduct hsingle
  exact ⟨⟨hproduct, hsingle, hsum, henclosed, hplain, by decide⟩,
    hcomposes.nested_eq_of_plusEnclosed henclosed hplain, hregroups "a+b" _ hsum⟩

end SurveyTables.Expression
