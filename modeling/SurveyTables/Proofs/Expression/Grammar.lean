import SurveyTables.Expression.Reader

/-!
# The grammar of expressions

```
sum   = chain ("+" chain)*
chain = atom (">" atom)*
atom  = name | "(" sum ")"
```

A derivation is a tree: a sum is one chain, or a chain in front of `+` and further chains, and a chain
is built of atoms in the same way.

* `SumTree`, `ChainTree`, `AtomTree`: derivations, with the `tokens` that they derive and the
  `expression` that they stand for;
* `ChainTree.expression_eq`, `SumTree.expression_eq`: a row of items as the reader wraps it up;
* **`SumTree.eq_of_expression`**: an expression has at most one derivation;
* `chainOf`, `sumOf`: a derivation from the parts that stand before its last atom.
-/

namespace SurveyTables.Expression

mutual

/-- A derivation of a sum: its chains, with `+` between them. -/
inductive SumTree where
  | last (c : ChainTree)
  | plus (c : ChainTree) (rest : SumTree)

/-- A derivation of a chain: its atoms, with `>` between them. -/
inductive ChainTree where
  | last (a : AtomTree)
  | greater (a : AtomTree) (rest : ChainTree)

/-- A derivation of an atom: a name, or a sum in parentheses. -/
inductive AtomTree where
  | name (id : String)
  | paren (s : SumTree)

end

mutual

/-- The tokens that a derivation of a sum derives. -/
def SumTree.tokens : SumTree → List Token
  | .last c => c.tokens
  | .plus c rest => c.tokens ++ .plus :: rest.tokens

/-- The tokens that a derivation of a chain derives. -/
def ChainTree.tokens : ChainTree → List Token
  | .last a => a.tokens
  | .greater a rest => a.tokens ++ .greater :: rest.tokens

/-- The tokens that a derivation of an atom derives. -/
def AtomTree.tokens : AtomTree → List Token
  | .name id => [.name id]
  | .paren s => .leftParen :: s.tokens ++ [.rightParen]

end

mutual

/-- The expression of a sum: that of its only chain, or the sum of all of them. -/
def SumTree.expression : SumTree → Expression
  | .last c => c.expression
  | .plus c rest => .sum (c.expression :: rest.expressions)

/-- The expressions of the chains of a sum, in order. -/
def SumTree.expressions : SumTree → List Expression
  | .last c => [c.expression]
  | .plus c rest => c.expression :: rest.expressions

/-- The expression of a chain: that of its only atom, or the nest of all of them. -/
def ChainTree.expression : ChainTree → Expression
  | .last a => a.expression
  | .greater a rest => .nest (a.expression :: rest.expressions)

/-- The expressions of the atoms of a chain, in order. -/
def ChainTree.expressions : ChainTree → List Expression
  | .last a => [a.expression]
  | .greater a rest => a.expression :: rest.expressions

/-- The expression of an atom: a variable, or a group. -/
def AtomTree.expression : AtomTree → Expression
  | .name id => .single id
  | .paren s => .paren s.expression

end

/-! ## Rows of items -/

theorem collapse_cons_cons (wrap : List Expression → Expression) (e f : Expression)
    (es : List Expression) : collapse wrap (e :: f :: es) = wrap (e :: f :: es) := rfl

theorem ChainTree.exists_expressions_eq (c : ChainTree) : ∃ e es, c.expressions = e :: es := by
  cases c with
  | last a => exact ⟨_, _, by rw [ChainTree.expressions]⟩
  | greater a rest => exact ⟨_, _, by rw [ChainTree.expressions]⟩

theorem SumTree.exists_expressions_eq (s : SumTree) : ∃ e es, s.expressions = e :: es := by
  cases s with
  | last c => exact ⟨_, _, by rw [SumTree.expressions]⟩
  | plus c rest => exact ⟨_, _, by rw [SumTree.expressions]⟩

theorem ChainTree.expression_eq (c : ChainTree) :
    c.expression = collapse .nest c.expressions := by
  cases c with
  | last a => rw [ChainTree.expression, ChainTree.expressions, collapse]
  | greater a rest =>
    obtain ⟨e, es, h⟩ := rest.exists_expressions_eq
    rw [ChainTree.expression, ChainTree.expressions, h, collapse_cons_cons]

theorem SumTree.expression_eq (s : SumTree) : s.expression = collapse .sum s.expressions := by
  cases s with
  | last c => rw [SumTree.expression, SumTree.expressions, collapse]
  | plus c rest =>
    obtain ⟨e, es, h⟩ := rest.exists_expressions_eq
    rw [SumTree.expression, SumTree.expressions, h, collapse_cons_cons]

/-! ## The derivation of an expression -/

theorem AtomTree.expression_ne_nest (a : AtomTree) (es : List Expression) :
    a.expression ≠ .nest es := by
  cases a <;> simp [AtomTree.expression]

theorem AtomTree.expression_ne_sum (a : AtomTree) (es : List Expression) :
    a.expression ≠ .sum es := by
  cases a <;> simp [AtomTree.expression]

theorem ChainTree.expression_ne_sum (c : ChainTree) (es : List Expression) :
    c.expression ≠ .sum es := by
  cases c with
  | last a => rw [ChainTree.expression]; exact a.expression_ne_sum es
  | greater a rest => simp [ChainTree.expression]

theorem ChainTree.expressions_of_expression {c d : ChainTree} (h : c.expression = d.expression) :
    c.expressions = d.expressions := by
  cases c with
  | last a =>
    cases d with
    | last b => simpa [ChainTree.expression, ChainTree.expressions] using h
    | greater b rest =>
      rw [ChainTree.expression, ChainTree.expression] at h
      exact absurd h (a.expression_ne_nest _)
  | greater a rest =>
    cases d with
    | last b =>
      rw [ChainTree.expression, ChainTree.expression] at h
      exact absurd h.symm (b.expression_ne_nest _)
    | greater b rest' => simpa [ChainTree.expression, ChainTree.expressions] using h

theorem SumTree.expressions_of_expression {s t : SumTree} (h : s.expression = t.expression) :
    s.expressions = t.expressions := by
  cases s with
  | last c =>
    cases t with
    | last d => simpa [SumTree.expression, SumTree.expressions] using h
    | plus d rest =>
      rw [SumTree.expression, SumTree.expression] at h
      exact absurd h (c.expression_ne_sum _)
  | plus c rest =>
    cases t with
    | last d =>
      rw [SumTree.expression, SumTree.expression] at h
      exact absurd h.symm (d.expression_ne_sum _)
    | plus d rest' => simpa [SumTree.expression, SumTree.expressions] using h

mutual

theorem SumTree.eq_of_expressions :
    ∀ (s t : SumTree), s.expressions = t.expressions → s = t
  | .last c, .last d, h => by
    simp only [SumTree.expressions, List.cons.injEq, and_true] at h
    rw [ChainTree.eq_of_expressions c d (ChainTree.expressions_of_expression h)]
  | .last c, .plus d rest, h => by
    obtain ⟨e, es, he⟩ := rest.exists_expressions_eq
    simp [SumTree.expressions, he] at h
  | .plus c rest, .last d, h => by
    obtain ⟨e, es, he⟩ := rest.exists_expressions_eq
    simp [SumTree.expressions, he] at h
  | .plus c rest, .plus d rest', h => by
    simp only [SumTree.expressions, List.cons.injEq] at h
    rw [ChainTree.eq_of_expressions c d (ChainTree.expressions_of_expression h.1),
      SumTree.eq_of_expressions rest rest' h.2]

theorem ChainTree.eq_of_expressions :
    ∀ (c d : ChainTree), c.expressions = d.expressions → c = d
  | .last a, .last b, h => by
    simp only [ChainTree.expressions, List.cons.injEq, and_true] at h
    rw [AtomTree.eq_of_expression a b h]
  | .last a, .greater b rest, h => by
    obtain ⟨e, es, he⟩ := rest.exists_expressions_eq
    simp [ChainTree.expressions, he] at h
  | .greater a rest, .last b, h => by
    obtain ⟨e, es, he⟩ := rest.exists_expressions_eq
    simp [ChainTree.expressions, he] at h
  | .greater a rest, .greater b rest', h => by
    simp only [ChainTree.expressions, List.cons.injEq] at h
    rw [AtomTree.eq_of_expression a b h.1, ChainTree.eq_of_expressions rest rest' h.2]

theorem AtomTree.eq_of_expression : ∀ (a b : AtomTree), a.expression = b.expression → a = b
  | .name id, .name id', h => by
    simp only [AtomTree.expression, Expression.single.injEq] at h
    rw [h]
  | .name id, .paren s, h => by simp [AtomTree.expression] at h
  | .paren s, .name id, h => by simp [AtomTree.expression] at h
  | .paren s, .paren t, h => by
    simp only [AtomTree.expression, Expression.paren.injEq] at h
    rw [SumTree.eq_of_expressions s t (SumTree.expressions_of_expression h)]

end

/-- **An expression has at most one derivation**, so the derivation can be read off the reader's
answer. -/
theorem SumTree.eq_of_expression {s t : SumTree} (h : s.expression = t.expression) : s = t :=
  SumTree.eq_of_expressions s t (SumTree.expressions_of_expression h)

/-! ## Derivations from their parts -/

/-- The chain of the items, newest first, and a last atom. -/
def chainOf (items : List AtomTree) (a : AtomTree) : ChainTree :=
  items.foldl (fun c b => .greater b c) (.last a)

/-- The sum of the chains, newest first, and a last chain. -/
def sumOf (chains : List ChainTree) (c : ChainTree) : SumTree :=
  chains.foldl (fun s d => .plus d s) (.last c)

theorem foldl_greater_expressions (items : List AtomTree) (c : ChainTree) :
    (items.foldl (fun c b => ChainTree.greater b c) c).expressions =
      (items.map AtomTree.expression).reverse ++ c.expressions := by
  induction items generalizing c with
  | nil => rfl
  | cons b items ih =>
    rw [List.foldl_cons, ih, ChainTree.expressions, List.map_cons, List.reverse_cons,
      List.append_assoc, List.singleton_append]

theorem chainOf_expressions (items : List AtomTree) (a : AtomTree) :
    (chainOf items a).expressions = (items.map AtomTree.expression).reverse ++ [a.expression] := by
  rw [chainOf, foldl_greater_expressions, ChainTree.expressions]

theorem foldl_plus_expressions (chains : List ChainTree) (s : SumTree) :
    (chains.foldl (fun s d => SumTree.plus d s) s).expressions =
      (chains.map ChainTree.expression).reverse ++ s.expressions := by
  induction chains generalizing s with
  | nil => rfl
  | cons d chains ih =>
    rw [List.foldl_cons, ih, SumTree.expressions, List.map_cons, List.reverse_cons,
      List.append_assoc, List.singleton_append]

theorem sumOf_expressions (chains : List ChainTree) (c : ChainTree) :
    (sumOf chains c).expressions =
      (chains.map ChainTree.expression).reverse ++ [c.expression] := by
  rw [sumOf, foldl_plus_expressions, SumTree.expressions]

/-- The tokens of the items, newest first, each with `>` behind it. -/
def itemTokens (items : List AtomTree) : List Token :=
  items.reverse.flatMap fun a => a.tokens ++ [.greater]

/-- The tokens of the chains, newest first, each with `+` behind it. -/
def chainTokens (chains : List ChainTree) : List Token :=
  chains.reverse.flatMap fun c => c.tokens ++ [.plus]

theorem itemTokens_cons (a : AtomTree) (items : List AtomTree) :
    itemTokens (a :: items) = itemTokens items ++ a.tokens ++ [.greater] := by
  simp [itemTokens]

theorem chainTokens_cons (c : ChainTree) (chains : List ChainTree) :
    chainTokens (c :: chains) = chainTokens chains ++ c.tokens ++ [.plus] := by
  simp [chainTokens]

theorem foldl_greater_tokens (items : List AtomTree) (c : ChainTree) :
    (items.foldl (fun c b => ChainTree.greater b c) c).tokens = itemTokens items ++ c.tokens := by
  induction items generalizing c with
  | nil => rfl
  | cons b items ih =>
    rw [List.foldl_cons, ih, ChainTree.tokens, itemTokens_cons, List.append_assoc, List.append_assoc,
      List.singleton_append]

theorem chainOf_tokens (items : List AtomTree) (a : AtomTree) :
    (chainOf items a).tokens = itemTokens items ++ a.tokens := by
  rw [chainOf, foldl_greater_tokens, ChainTree.tokens]

theorem foldl_plus_tokens (chains : List ChainTree) (s : SumTree) :
    (chains.foldl (fun s d => SumTree.plus d s) s).tokens = chainTokens chains ++ s.tokens := by
  induction chains generalizing s with
  | nil => rfl
  | cons d chains ih =>
    rw [List.foldl_cons, ih, SumTree.tokens, chainTokens_cons, List.append_assoc, List.append_assoc,
      List.singleton_append]

theorem sumOf_tokens (chains : List ChainTree) (c : ChainTree) :
    (sumOf chains c).tokens = chainTokens chains ++ c.tokens := by
  rw [sumOf, foldl_plus_tokens, SumTree.tokens]

end SurveyTables.Expression
