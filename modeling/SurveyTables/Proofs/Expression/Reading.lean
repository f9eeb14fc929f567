import Mathlib
import SurveyTables.Proofs.Expression.Grammar

/-!
# Reading is deriving

* `SumTree.readItem_append`: the reader gets through the tokens of a derivation and has then drafted its
  expression (completeness);
* `OpenSum`, `openTokens`: the derivations behind a stack of drafts, and the tokens that they derive;
* `read_sound`: where the reader answers, the tokens that it has read and those to come have a
  derivation (soundness);
* **`ofText_exact`**: a text is read just if its tokens have a derivation, which is then the only one.
-/

namespace SurveyTables.Expression

/-! ## Completeness -/

theorem readRest_greater (depth : Nat) (outer : List Draft) (draft : Draft) (rest : List Token) :
    readRest depth outer draft (.greater :: rest) = readItem depth outer draft rest := by
  rw [readRest]

theorem readRest_plus (depth : Nat) (outer : List Draft) (draft : Draft) (rest : List Token) :
    readRest depth outer draft (.plus :: rest) = readItem depth outer draft.endChain rest := by
  rw [readRest]

theorem readRest_rightParen (depth : Nat) (around : Draft) (outer : List Draft) (draft : Draft)
    (rest : List Token) : readRest depth (around :: outer) draft (.rightParen :: rest) =
      readRest depth outer (around.addItem (.paren draft.sum)) rest := by
  rw [readRest]

mutual

theorem SumTree.readItem_append : ∀ (s : SumTree) (draft : Draft), draft.items = [] →
    ∃ done : Draft, done.endChain.chains = s.expressions.reverse ++ draft.chains ∧
      ∀ (depth : Nat) (outer : List Draft) (rest : List Token),
        readItem depth outer draft (s.tokens ++ rest) = readRest depth outer done rest
  | .last c, draft, hd => by
    refine ⟨{ draft with items := c.expressions.reverse }, ?_, fun depth outer rest => ?_⟩
    · simp [Draft.endChain, Draft.chain, ← c.expression_eq, SumTree.expressions]
    · rw [SumTree.tokens, ChainTree.readItem_append c, hd, List.append_nil]
  | .plus c more, draft, hd => by
    obtain ⟨done, hdone, hread⟩ :=
      SumTree.readItem_append more { draft with items := c.expressions.reverse }.endChain rfl
    refine ⟨done, ?_, fun depth outer rest => ?_⟩
    · rw [hdone]
      simp [Draft.endChain, Draft.chain, ← c.expression_eq, SumTree.expressions]
    · rw [SumTree.tokens, List.append_assoc, List.cons_append, ChainTree.readItem_append c, hd,
        List.append_nil, readRest_plus, hread]

theorem ChainTree.readItem_append : ∀ (c : ChainTree) (depth : Nat) (outer : List Draft) (draft : Draft)
    (rest : List Token), readItem depth outer draft (c.tokens ++ rest) =
      readRest depth outer { draft with items := c.expressions.reverse ++ draft.items } rest
  | .last a, depth, outer, draft, rest => by
    rw [ChainTree.tokens, AtomTree.readItem_append a, ChainTree.expressions]
    rfl
  | .greater a more, depth, outer, draft, rest => by
    rw [ChainTree.tokens, List.append_assoc, List.cons_append, AtomTree.readItem_append a,
      readRest_greater, ChainTree.readItem_append more, ChainTree.expressions]
    simp [Draft.addItem]

theorem AtomTree.readItem_append : ∀ (a : AtomTree) (depth : Nat) (outer : List Draft) (draft : Draft)
    (rest : List Token), readItem depth outer draft (a.tokens ++ rest) =
      readRest depth outer (draft.addItem a.expression) rest
  | .name id, depth, outer, draft, rest => by
    rw [AtomTree.tokens, List.singleton_append, readItem, AtomTree.expression]
  | .paren s, depth, outer, draft, rest => by
    obtain ⟨done, hdone, hread⟩ := SumTree.readItem_append s {} rfl
    have hsum : done.sum = s.expression := by
      rw [Draft.sum, hdone, s.expression_eq]
      simp
    have htokens : (AtomTree.paren s).tokens ++ rest =
        .leftParen :: (s.tokens ++ .rightParen :: rest) := by
      simp [AtomTree.tokens]
    rw [htokens, readItem, hread, readRest_rightParen, hsum, AtomTree.expression]

end

theorem SumTree.readItem_eq (s : SumTree) (depth : Nat) :
    (readItem depth [] {} s.tokens).1 = .ok s.expression := by
  obtain ⟨done, hdone, hread⟩ := SumTree.readItem_append s {} rfl
  have hsum : done.sum = s.expression := by
    rw [Draft.sum, hdone, s.expression_eq]
    simp
  have h := hread depth [] []
  rw [List.append_nil] at h
  rw [h, readRest, finish, hsum] <;> simp

/-! ## Soundness -/

/-- A sum that is being derived: its finished chains and the atoms of its last chain, newest first. -/
structure OpenSum where
  chains : List ChainTree := []
  items : List AtomTree := []

namespace OpenSum

/-- What the reader keeps of it. -/
def draft (o : OpenSum) : Draft :=
  { chains := o.chains.map ChainTree.expression, items := o.items.map AtomTree.expression }

/-- The tokens up to the place where the next atom is due. -/
def tokens (o : OpenSum) : List Token :=
  chainTokens o.chains ++ itemTokens o.items

/-- The sum that ends with the atom. -/
def close (o : OpenSum) (a : AtomTree) : SumTree :=
  sumOf o.chains (chainOf o.items a)

theorem close_tokens (o : OpenSum) (a : AtomTree) : (o.close a).tokens = o.tokens ++ a.tokens := by
  rw [close, sumOf_tokens, chainOf_tokens, tokens, List.append_assoc]

theorem chain_addItem (o : OpenSum) (a : AtomTree) :
    (o.draft.addItem a.expression).chain = (chainOf o.items a).expression := by
  rw [ChainTree.expression_eq, chainOf_expressions, Draft.chain, Draft.addItem, draft,
    List.reverse_cons]

theorem sum_addItem (o : OpenSum) (a : AtomTree) :
    (o.draft.addItem a.expression).sum = (o.close a).expression := by
  rw [SumTree.expression_eq, close, sumOf_expressions, Draft.sum, Draft.endChain, chain_addItem,
    List.reverse_cons]
  rfl

end OpenSum

/-- The tokens up to the last group that is open, the innermost sum around it first. -/
def openTokens : List OpenSum → List Token
  | [] => []
  | o :: outer => openTokens outer ++ o.tokens ++ [.leftParen]

/-- The answer is that of a derivation of the tokens. -/
def Derived (ts : List Token) (answer : Except ReadError Expression) : Prop :=
  ∀ e, answer = .ok e → ∃ s : SumTree, s.tokens = ts ∧ s.expression = e

theorem Derived.error (ts : List Token) (err : ReadError) : Derived ts (.error err) :=
  fun _ h => nomatch h

/-- Both places of a sum at once, by induction on the tokens to come: every step of the reader moves
one token over to the derivations behind its drafts. -/
theorem read_sound (depth : Nat) (ts : List Token) :
    (∀ (outer : List OpenSum) (o : OpenSum), Derived (openTokens outer ++ o.tokens ++ ts)
      (readItem depth (outer.map OpenSum.draft) o.draft ts).1) ∧
    (∀ (outer : List OpenSum) (o : OpenSum) (a : AtomTree),
      Derived (openTokens outer ++ o.tokens ++ a.tokens ++ ts)
        (readRest depth (outer.map OpenSum.draft) (o.draft.addItem a.expression) ts).1) := by
  induction ts with
  | nil =>
    refine ⟨fun outer o => ?_, fun outer o a => ?_⟩
    · rw [readItem]
      · exact Derived.error _ _
      · simp
      · simp
    · cases outer with
      | nil =>
        intro e he
        rw [readRest, List.map_nil, finish, o.sum_addItem] at he
        · refine ⟨o.close a, ?_, Except.ok.inj he⟩
          rw [o.close_tokens, openTokens, List.nil_append, List.append_nil]
        all_goals simp
      | cons around outer =>
        rw [readRest, List.map_cons, finish]
        · exact Derived.error _ _
        all_goals simp
  | cons t ts ih =>
    refine ⟨fun outer o => ?_, fun outer o a => ?_⟩
    · cases t with
      | name id =>
        rw [readItem]
        have h := ih.2 outer o (.name id)
        rwa [AtomTree.tokens, AtomTree.expression, List.append_assoc, List.singleton_append] at h
      | leftParen =>
        rw [readItem]
        have h := ih.1 (o :: outer) {}
        simpa [openTokens, OpenSum.tokens, chainTokens, itemTokens, OpenSum.draft] using h
      | byWord | plus | greater | rightParen | illegal c =>
        rw [readItem]
        · exact Derived.error _ _
        · simp
        · simp
    · cases t with
      | greater =>
        rw [readRest_greater]
        have h := ih.1 outer { o with items := a :: o.items }
        simpa [OpenSum.tokens, itemTokens_cons, OpenSum.draft, Draft.addItem] using h
      | plus =>
        rw [readRest_plus]
        have h := ih.1 outer { chains := chainOf o.items a :: o.chains }
        have hd : (o.draft.addItem a.expression).endChain =
            OpenSum.draft { chains := chainOf o.items a :: o.chains } := by
          rw [Draft.endChain, o.chain_addItem]
          rfl
        rw [hd]
        simpa [OpenSum.tokens, itemTokens, chainTokens_cons, chainOf_tokens] using h
      | rightParen =>
        cases outer with
        | nil =>
          simp only [List.map_nil, readRest, finish]
          exact Derived.error _ _
        | cons around outer =>
          rw [List.map_cons, readRest_rightParen, o.sum_addItem]
          have h := ih.2 outer around (.paren (o.close a))
          simpa [openTokens, AtomTree.tokens, AtomTree.expression, o.close_tokens] using h
      | name id | leftParen | byWord | illegal c =>
        rw [readRest]
        · cases outer <;> exact Derived.error _ _
        all_goals simp

theorem exists_tree_of_readItem {depth : Nat} {ts : List Token} {e : Expression}
    (h : (readItem depth [] {} ts).1 = .ok e) : ∃ s : SumTree, s.tokens = ts ∧ s.expression = e :=
  (read_sound depth ts).1 [] {} e h

theorem SumTree.eq_of_tokens {s t : SumTree} (h : s.tokens = t.tokens) : s = t := by
  have hs := s.readItem_eq 0
  rw [h, t.readItem_eq 0] at hs
  exact (SumTree.eq_of_expression (Except.ok.inj hs)).symm

/-! ## Whole texts -/

mutual

theorem SumTree.legal_of_mem_tokens :
    ∀ (s : SumTree), ∀ t ∈ s.tokens, t ≠ .byWord ∧ ∀ c, t ≠ .illegal c
  | .last c, t, ht => by
    rw [SumTree.tokens] at ht
    exact c.legal_of_mem_tokens t ht
  | .plus c rest, t, ht => by
    rw [SumTree.tokens, List.mem_append, List.mem_cons] at ht
    rcases ht with h | rfl | h
    · exact c.legal_of_mem_tokens t h
    · simp
    · exact rest.legal_of_mem_tokens t h

theorem ChainTree.legal_of_mem_tokens :
    ∀ (c : ChainTree), ∀ t ∈ c.tokens, t ≠ .byWord ∧ ∀ i, t ≠ .illegal i
  | .last a, t, ht => by
    rw [ChainTree.tokens] at ht
    exact a.legal_of_mem_tokens t ht
  | .greater a rest, t, ht => by
    rw [ChainTree.tokens, List.mem_append, List.mem_cons] at ht
    rcases ht with h | rfl | h
    · exact a.legal_of_mem_tokens t h
    · simp
    · exact rest.legal_of_mem_tokens t h

theorem AtomTree.legal_of_mem_tokens :
    ∀ (a : AtomTree), ∀ t ∈ a.tokens, t ≠ .byWord ∧ ∀ c, t ≠ .illegal c
  | .name id, t, ht => by
    rw [AtomTree.tokens, List.mem_singleton] at ht
    simp [ht]
  | .paren s, t, ht => by
    rw [AtomTree.tokens, List.cons_append, List.mem_cons, List.mem_append, List.mem_singleton] at ht
    rcases ht with rfl | h | rfl
    · simp
    · exact s.legal_of_mem_tokens t h
    · simp

end

theorem SumTree.tokens_ne_nil (s : SumTree) : s.tokens ≠ [] := by
  intro h
  have hread := s.readItem_eq 0
  rw [h, readItem] at hread
  · simp at hread
  all_goals simp

theorem ofText_eq_ok_iff (text : String) (e : Expression) :
    ofText text = .ok e ↔ ∃ s : SumTree, s.tokens = tokens text.toList ∧ s.expression = e := by
  rw [ofText, Reader.read, Reader.ofText]
  constructor
  · intro h
    split at h
    · simp at h
    · exact exists_tree_of_readItem h
  · rintro ⟨s, hs, rfl⟩
    split
    · next h => exact absurd (hs.trans h) s.tokens_ne_nil
    · simp only [← hs]
      exact s.readItem_eq 0

/-- **The reader accepts exactly what the grammar derives**, and the answer is the expression of the only
derivation. -/
theorem ofText_exact (text : String) :
    ((∃ e, ofText text = .ok e) ↔ ∃ s : SumTree, s.tokens = tokens text.toList) ∧
    (∀ s : SumTree, s.tokens = tokens text.toList →
      ofText text = .ok s.expression ∧ ∀ t : SumTree, t.tokens = tokens text.toList → t = s) ∧
    (∀ t ∈ tokens text.toList, (t = .byWord ∨ ∃ c, t = .illegal c) →
      ∃ err, ofText text = .error err) := by
  refine ⟨⟨?_, ?_⟩, fun s hs => ⟨?_, fun t ht => ?_⟩, fun t ht hbad => ?_⟩
  · rintro ⟨e, he⟩
    obtain ⟨s, hs, -⟩ := (ofText_eq_ok_iff text e).mp he
    exact ⟨s, hs⟩
  · rintro ⟨s, hs⟩
    exact ⟨s.expression, (ofText_eq_ok_iff text _).mpr ⟨s, hs, rfl⟩⟩
  · exact (ofText_eq_ok_iff text _).mpr ⟨s, hs, rfl⟩
  · exact SumTree.eq_of_tokens (ht.trans hs.symm)
  · cases h : ofText text with
    | error err => exact ⟨err, rfl⟩
    | ok e =>
      obtain ⟨s, hs, -⟩ := (ofText_eq_ok_iff text e).mp h
      have hw := s.legal_of_mem_tokens t (hs ▸ ht)
      rcases hbad with hby | ⟨c, hc⟩
      · exact absurd hby hw.1
      · exact absurd hc (hw.2 c)

/-- A sum in a chain is read as its derivation says, and a keyword at the end is refused. -/
theorem ofText_exact_nested :
    (SumTree.last (.greater (.paren (.plus (.last (.name "a")) (.last (.last (.name "b.1")))))
      (.last (.name "c")))).tokens = tokens "(a + b.1) >c".toList ∧
    ofText "(a + b.1) >c" = .ok (.nest [.paren (.sum [.single "a", .single "b.1"]), .single "c"]) ∧
    .byWord ∈ tokens "a > BY".toList ∧ ∃ err, ofText "a > BY" = .error err := by
  have ht : (SumTree.last (.greater (.paren (.plus (.last (.name "a")) (.last (.last (.name "b.1")))))
      (.last (.name "c")))).tokens = tokens "(a + b.1) >c".toList := by cbv
  have hby : Token.byWord ∈ tokens "a > BY".toList := by
    have h : tokens "a > BY".toList = [.name "a", .greater, .byWord] := by cbv
    rw [h]
    decide
  exact ⟨ht, ((ofText_exact "(a + b.1) >c").2.1 _ ht).1, hby,
    (ofText_exact "a > BY").2.2 .byWord hby (.inl rfl)⟩

end SurveyTables.Expression
