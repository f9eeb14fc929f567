import SurveyTables.Proofs.Expression.Descent
import SurveyTables.Proofs.Expression.Lexing

/-!
# What an error points at

A text that is not an expression is refused at the first token with which no expression can begin any more.

* `Begins`: what the beginning of an expression is;
* **`begins_of_run`**, **`not_begins`**: tokens that fit are one, and with a token that does not they are none;
* `ReadError.depth?`, `Place.depth?_of_answer`: the depth that an error names;
* **`ofText_error_exact`**.
-/

namespace SurveyTables.Expression

/-! ## Beginnings -/

/-- Some expression begins so; `none` stands for its end. -/
def Begins (ls : List (Option Token)) : Prop :=
  ∃ text e, ofText text = .ok e ∧ ls <+: lookaheads text.toList

theorem map_some_prefix {ts us : List Token} (h : ts <+: us) :
    ts.map some <+: us.map some ++ [none] := by
  obtain ⟨rest, rfl⟩ := h
  simp

theorem exists_of_prefix {ts us : List Token} {next : Option Token}
    (h : ts.map some ++ [next] <+: us.map some ++ [none]) :
    ∃ rest, us = ts ++ rest ∧ rest.head? = next := by
  induction ts generalizing us with
  | nil =>
    refine ⟨us, rfl, ?_⟩
    cases us <;> simp_all
  | cons t ts ih =>
    cases us with
    | nil => simp at h
    | cons u us =>
      obtain ⟨hu, h⟩ := List.cons_prefix_cons.mp h
      obtain ⟨rest, rfl, hhead⟩ := ih h
      exact ⟨rest, by rw [Option.some.inj hu, List.cons_append], hhead⟩

variable {passed rest : List Token} {p : Place} {cs : List Char}

theorem Place.tokens_text_of_mem_closing {t : Token} (h : t ∈ p.closing) :
    tokens t.text.toList = [t] := by
  have hx : IsName "x" := by decide
  cases p with
  | due outer draft =>
    rw [Place.closing, List.mem_cons] at h
    rcases h with rfl | h
    · exact tokens_name hx
    · rw [List.eq_of_mem_replicate h]
      exact tokens_text trivial
  | behind outer draft =>
    rw [List.eq_of_mem_replicate h]
    exact tokens_text trivial

/-- **Tokens of a text that fit** are the beginning of an expression. -/
theorem begins_of_run (hrun : Place.start.run passed = some p) (hmem : ∀ t ∈ passed, t ∈ tokens cs) :
    Begins (passed.map some) := by
  obtain ⟨done, hdone⟩ := p.exists_closing
  have hwhole : Place.start.run (passed ++ p.closing) = some (.behind [] done) := by
    rw [Place.run_append, hrun]
    exact hdone
  have hread := Place.read_append hwhole 0 []
  rw [List.append_nil] at hread
  obtain ⟨s, hs, he⟩ := exists_tree_of_readItem (congrArg Prod.fst hread)
  have htext : ∀ t ∈ s.tokens, tokens t.text.toList = [t] := fun t ht => by
    rcases List.mem_append.mp (hs ▸ ht) with hpassed | hclosing
    · exact tokens_text_of_mem (hmem t hpassed) (s.legal_of_mem_tokens t ht).2
    · exact Place.tokens_text_of_mem_closing hclosing
  have htokens : tokens (String.ofList (spaced s.tokens)).toList = s.tokens := by
    rw [String.toList_ofList, tokens_spaced_of_text htext]
  refine ⟨String.ofList (spaced s.tokens), s.expression, ?_, ?_⟩
  · exact (ofText_eq_ok_iff _ _).mpr ⟨s, htokens.symm, rfl⟩
  · rw [lookaheads, htokens, hs]
    exact map_some_prefix (List.prefix_append _ _)

/-- **Where the answer is an error**, what comes next is not the beginning of an expression. -/
theorem not_begins {next : Option Token} {err : ReadError} (hrun : Place.start.run passed = some p)
    (hstuck : ∀ t ∈ next, p.step t = none) (hanswer : p.answer 0 next = .error err) :
    ¬ Begins (passed.map some ++ [next]) := by
  rintro ⟨text, e, hok, hprefix⟩
  obtain ⟨rest, htokens, rfl⟩ := exists_of_prefix hprefix
  have hread := Reader.read_append hrun hstuck 0
  rw [← htokens] at hread
  rw [ofText, Reader.ofText, hread] at hok
  split at hok
  · cases hok
  · cases hanswer.symm.trans hok

/-! ## The depth of an error -/

/-- The depth that the error names. -/
def ReadError.depth? : ReadError → Option Nat
  | .endInside depth => some depth
  | .unclosed depth _ => some depth
  | _ => none

theorem Place.depth?_of_answer {left d : Nat} {next : Option Token} {err : ReadError}
    (h : p.answer left next = .error err) (hd : err.depth? = some d) : d = left + p.depth := by
  match p, next with
  | .due outer draft, next =>
    obtain rfl := Except.error.inj h
    unfold ReadError.ofItem at hd
    split at hd
    · split at hd
      · exact (Option.some.inj hd).symm
      · cases hd
    all_goals cases hd
  | .behind [] draft, none => cases h
  | .behind [] draft, some t =>
    obtain rfl := Except.error.inj h
    unfold ReadError.ofEnd at hd
    split at hd <;> cases hd
  | .behind (_ :: outer) draft, next =>
    obtain rfl := Except.error.inj h
    exact (Option.some.inj hd).symm

/-! ## Errors -/

theorem Descent.Reaches.count_eq {r s : Reader} (h : Reaches 0 .start r p s) : ∃ passed,
    r.rest = passed ++ s.rest ∧
    s.depth + passed.count .rightParen = passed.count .leftParen := by
  obtain ⟨passed, hrest, hrun⟩ := h.exists_run
  rw [h.depth_eq, Nat.zero_add]
  exact ⟨passed, hrest, Place.depth_of_run hrun⟩

/-- **An error points at the first token that does not fit**, and the depth that it names is that of the groups
open there. Reading by descent gives the same answer and enters every procedure with the right depth. -/
theorem ofText_error_exact (text : String) :
    (∀ err, ofText text = .error err → ∃ passed,
      tokens text.toList = passed ++ (Reader.ofText text).read.2.rest ∧
      Begins (passed.map some) ∧
      ¬ Begins (passed.map some ++ [(Reader.ofText text).read.2.rest.head?]) ∧
      (Reader.ofText text).read.2.depth + passed.count .rightParen = passed.count .leftParen ∧
      ∀ d, err.depth? = some d → d = (Reader.ofText text).read.2.depth) ∧
    (Descent.descend (Reader.ofText text)).answer = ofText text ∧
    (Descent.descend (Reader.ofText text)).reader = (Reader.ofText text).read.2 ∧
    (∀ r, (Descent.sum r).entries.head? = some r ∧ (Descent.chain r).entries.head? = some r ∧
      (Descent.atom r).entries.head? = some r) ∧
    ∀ r ∈ (Descent.descend (Reader.ofText text)).entries, ∃ passed,
      tokens text.toList = passed ++ r.rest ∧
      r.depth + passed.count .rightParen = passed.count .leftParen := by
  have hdescend := Descent.descend_eq (Reader.ofText text)
  refine ⟨fun err herr => ?_, congrArg Prod.fst hdescend, congrArg Prod.snd hdescend,
    Descent.head?_entries, fun r hr => ?_⟩
  · obtain ⟨passed, rest, p, htokens, hrun, hstuck, hread⟩ := Reader.exists_stop (tokens text.toList)
    rw [ofText, Reader.ofText, hread] at herr
    rw [Reader.ofText, hread]
    have hmem : ∀ t ∈ passed, t ∈ tokens text.toList := fun t ht => by
      rw [htokens]
      exact List.mem_append_left rest ht
    obtain ⟨err', hanswer, hsame⟩ : ∃ err', p.answer 0 rest.head? = .error err' ∧
        (err = .empty ∨ err = err') := by
      split at herr
      · next hnil =>
        obtain ⟨rfl, rfl⟩ := List.append_eq_nil_iff.mp (htokens.symm.trans hnil)
        obtain rfl := Option.some.inj hrun
        obtain rfl := Except.error.inj herr
        exact ⟨_, rfl, .inl rfl⟩
      · exact ⟨err, herr, .inr rfl⟩
    refine ⟨passed, htokens, begins_of_run hrun hmem, not_begins hrun hstuck hanswer, ?_, fun d hd => ?_⟩
    · rw [Nat.zero_add]
      exact Place.depth_of_run hrun
    · rcases hsame with rfl | rfl
      · cases hd
      · exact Place.depth?_of_answer hanswer hd
  · obtain ⟨q, hreach⟩ := Descent.exists_of_mem_entries hr
    exact hreach.count_eq

/-- A group in a group, not closed in front of another name. -/
theorem ofText_error_exact_unclosed :
    ofText "(a + (b c" = .error (.unclosed 2 (some (.name "c"))) ∧
    Begins [some .leftParen, some (.name "a"), some .plus, some .leftParen, some (.name "b")] ∧
    ¬ Begins [some .leftParen, some (.name "a"), some .plus, some .leftParen, some (.name "b"),
      some (.name "c")] := by
  have htokens : tokens "(a + (b c".toList =
      [.leftParen, .name "a", .plus, .leftParen, .name "b", .name "c"] := by cbv
  have hreader : Reader.ofText "(a + (b c" = { rest := tokens "(a + (b c".toList } := rfl
  rw [htokens] at hreader
  have herr : ofText "(a + (b c" = .error (.unclosed 2 (some (.name "c"))) := by
    rw [ofText, hreader]
    rfl
  obtain ⟨passed, hpassed, hbegins, hnot, -⟩ := (ofText_error_exact "(a + (b c").1 _ herr
  have hrest : (Reader.ofText "(a + (b c").read.2.rest = [.name "c"] := by
    rw [hreader]
    rfl
  rw [hrest] at hpassed hnot
  rw [htokens] at hpassed
  obtain rfl : [.leftParen, .name "a", .plus, .leftParen, .name "b"] = passed :=
    List.append_cancel_right hpassed
  exact ⟨herr, hbegins, hnot⟩

end SurveyTables.Expression
