import SurveyTables.Proofs.Expression.Printing

/-!
# A text as blanks and lexemes

A text is written in one way as lexemes with blanks between them, where runs of name characters are as long
as possible. Its tokens are those of the lexemes, whatever the blanks are.

* `IsWord`, `Lexeme`: the lexemes, with their tokens;
* `Piece`, `written`, `Lexing`: a text in pieces, each a lexeme with the blanks in front of it;
* `Apart`, `lexing_iff`: runs are longest just if there are blanks between them;
* `exists_lexing`, **`Lexing.tokens_eq`**, **`Lexing.unique`**: every text has pieces, these give its tokens,
  and there are no others;
* **`Lexing.withBlanks`**: other blanks in front of a lexeme;
* **`lookaheads_exact`**.
-/

namespace SurveyTables.Expression

/-! ## Lexemes -/

/-- A run of name characters. -/
structure IsWord (w : List Char) : Prop where
  ne_nil : w ≠ []
  isNameChar : ∀ c ∈ w, isNameChar c = true

instance (w : List Char) : Decidable (IsWord w) :=
  decidable_of_iff (w ≠ [] ∧ w.all isNameChar = true)
    ⟨fun ⟨hne, hchar⟩ => ⟨hne, List.all_eq_true.mp hchar⟩,
      fun h => ⟨h.1, List.all_eq_true.mpr h.2⟩⟩

/-- The characters are a lexeme and stand for the token. -/
inductive Lexeme : List Char → Token → Prop where
  | plus : Lexeme ['+'] .plus
  | greater : Lexeme ['>'] .greater
  | leftParen : Lexeme ['('] .leftParen
  | rightParen : Lexeme [')'] .rightParen
  /-- A run that is `by` if the case of its letters is disregarded. -/
  | byWord {w : List Char} : IsWord w → w.map Char.toLower = ['b', 'y'] → Lexeme w .byWord
  | name {w : List Char} : IsWord w → w.map Char.toLower ≠ ['b', 'y'] →
    Lexeme w (.name (String.ofList w))
  | illegal {c : Char} : Text.isBlank c = false → isNameChar c = false →
    c ∉ ['+', '>', '(', ')'] → Lexeme [c] (.illegal c)

variable {cs w blanks rest tail : List Char} {c : Char} {t : Token}

theorem toLower_eq_iff {c upper lower : Char}
    (hupper : 'A'.toNat ≤ upper.toNat ∧ upper.toNat ≤ 'Z'.toNat)
    (hlower : lower.toNat = upper.toNat + 32) : c.toLower = lower ↔ c = lower ∨ c = upper := by
  have hA : 'A'.toNat = 65 := rfl
  have hZ : 'Z'.toNat = 90 := rfl
  by_cases h : 'A'.toNat ≤ c.toNat ∧ c.toNat ≤ 'Z'.toNat
  · have hval : c.val ≥ 'A'.val ∧ c.val ≤ 'Z'.val := h
    have hc : c.val.toNat ≤ 90 := h.2
    have hshift : ('a'.val - 'A'.val).toNat = 32 := rfl
    have htoNat : c.toLower.toNat = c.toNat + 32 := by
      simp only [Char.toLower, dif_pos hval]
      show (c.val + ('a'.val - 'A'.val)).toNat = c.val.toNat + 32
      rw [UInt32.toNat_add]
      omega
    rw [← Char.toNat_inj, ← Char.toNat_inj, ← Char.toNat_inj, htoNat]
    omega
  · have hsame : c.toLower = c := dif_neg h
    have hne : c ≠ upper := by
      rintro rfl
      exact h hupper
    simp [hsame, hne]

theorem isBy_iff : isBy w = true ↔ w.map Char.toLower = ['b', 'y'] := by
  have hb : ∀ c : Char, c.toLower = 'b' ↔ c = 'b' ∨ c = 'B' := fun _ =>
    toLower_eq_iff (by decide) rfl
  have hy : ∀ c : Char, c.toLower = 'y' ↔ c = 'y' ∨ c = 'Y' := fun _ =>
    toLower_eq_iff (by decide) rfl
  match w with
  | [] | [_] | _ :: _ :: _ :: _ => simp [isBy]
  | [b, y] => simp [isBy, hb, hy]

theorem lexeme_word (h : IsWord w) : Lexeme w (word w) := by
  unfold word
  by_cases hby : isBy w = true
  · rw [if_pos hby]
    exact .byWord h (isBy_iff.mp hby)
  · rw [if_neg hby]
    exact .name h (mt isBy_iff.mpr hby)

theorem lexeme_sign (hblank : Text.isBlank c = false) (hname : isNameChar c = false) :
    Lexeme [c] (sign c) := by
  unfold sign
  split_ifs with hplus hgreater hleft hright
  · exact hplus ▸ .plus
  · exact hgreater ▸ .greater
  · exact hleft ▸ .leftParen
  · exact hright ▸ .rightParen
  · exact .illegal hblank hname (by simp [hplus, hgreater, hleft, hright])

theorem Lexeme.cases (h : Lexeme w t) : IsWord w ∧ t = word w ∨
    ∃ c, w = [c] ∧ Text.isBlank c = false ∧ isNameChar c = false ∧ t = sign c := by
  cases h with
  | plus | greater | leftParen | rightParen => exact .inr ⟨_, rfl, rfl, rfl, rfl⟩
  | byWord hw hby => exact .inl ⟨hw, by rw [word, if_pos (isBy_iff.mpr hby)]⟩
  | name hw hby => exact .inl ⟨hw, by rw [word, if_neg (mt isBy_iff.mp hby)]⟩
  | illegal hblank hname hsigns =>
    simp only [List.mem_cons, List.not_mem_nil, or_false, not_or] at hsigns
    exact .inr ⟨_, rfl, hblank, hname, by simp [sign, hsigns]⟩

theorem IsWord.not_endsName (h : IsWord w) (cs : List Char) : ¬ EndsName (w ++ cs) := by
  obtain ⟨c, w, rfl⟩ := List.exists_cons_of_ne_nil h.ne_nil
  rw [List.cons_append, endsName_cons, h.isNameChar c List.mem_cons_self]
  exact Bool.noConfusion

theorem endsName_blanks (h : ∀ c ∈ blanks, Text.isBlank c = true) : EndsName blanks := by
  have hreverse : ∀ c ∈ blanks.reverse, Text.isBlank c = true := by simpa using h
  simpa using endsName_reverse_blanks hreverse

theorem Lexeme.endsName (h : Lexeme w t) (hw : ¬ IsWord w) (cs : List Char) :
    EndsName (w ++ cs) ∧ EndsName (w.reverse ++ cs) := by
  obtain ⟨hword, -⟩ | ⟨c, rfl, -, hname, -⟩ := h.cases
  · exact absurd hword hw
  · exact ⟨endsName_cons.mpr hname, endsName_cons.mpr hname⟩

/-! ## Texts in pieces -/

/-- A lexeme, with its token and the blanks in front of it. -/
structure Piece where
  blanks : List Char
  lexeme : List Char
  token : Token

/-- The piece is made of blanks and of a lexeme of its token. -/
structure Piece.Valid (p : Piece) : Prop where
  isBlank : ∀ c ∈ p.blanks, Text.isBlank c = true
  lexeme : Lexeme p.lexeme p.token

/-- The pieces one behind the other, with blanks at the end. -/
def written (ps : List Piece) (tail : List Char) : List Char :=
  (ps.flatMap fun p => p.blanks ++ p.lexeme) ++ tail

/-- The text is written in these pieces, and no run among them can be made longer. -/
structure Lexing (cs : List Char) (ps : List Piece) (tail : List Char) : Prop where
  written_eq : written ps tail = cs
  valid : ∀ p ∈ ps, p.Valid
  isBlank : ∀ c ∈ tail, Text.isBlank c = true
  isLongest : ∀ before p after, ps = before ++ p :: after → IsWord p.lexeme →
    EndsName (written before p.blanks).reverse ∧ EndsName (written after tail)

/-- The lexemes are not both runs, or there are blanks between them. -/
def Apart (p q : Piece) : Prop :=
  IsWord p.lexeme → IsWord q.lexeme → q.blanks ≠ []

instance (p q : Piece) : Decidable (Apart p q) :=
  inferInstanceAs (Decidable (IsWord p.lexeme → IsWord q.lexeme → q.blanks ≠ []))

theorem written_cons (p : Piece) (ps : List Piece) (tail : List Char) :
    written (p :: ps) tail = p.blanks ++ (p.lexeme ++ written ps tail) := by
  simp [written]

theorem written_append_singleton (ps : List Piece) (p : Piece) (cs : List Char) :
    written (ps ++ [p]) cs = written ps p.blanks ++ (p.lexeme ++ cs) := by
  simp [written]

theorem Piece.Valid.endsName_iff {p q : Piece} (hq : q.Valid) (hp : IsWord p.lexeme)
    (cs : List Char) : EndsName (q.blanks ++ (q.lexeme ++ cs)) ↔ Apart p q := by
  cases hblanks : q.blanks with
  | nil =>
    rw [List.nil_append, Apart, hblanks]
    constructor
    · exact fun hends _ hword => absurd hends (hword.not_endsName cs)
    · exact fun hapart => (hq.lexeme.endsName (fun hword => hapart hp hword rfl) cs).1
  | cons c blanks =>
    have hends : EndsName (c :: blanks) := endsName_blanks (hblanks ▸ hq.isBlank)
    rw [Apart, hblanks]
    exact ⟨fun _ _ _ => List.cons_ne_nil _ _, fun _ => endsName_cons.mpr (endsName_cons.mp hends)⟩

theorem endsName_written_iff {p : Piece} {ps : List Piece} (hp : IsWord p.lexeme)
    (hvalid : ∀ q ∈ ps, q.Valid) (htail : ∀ c ∈ tail, Text.isBlank c = true) :
    EndsName (written ps tail) ↔ ∀ q ∈ ps.head?, Apart p q := by
  cases ps with
  | nil => simpa [written] using endsName_blanks htail
  | cons q ps => simp [written_cons, (hvalid q List.mem_cons_self).endsName_iff hp]

/-- **Runs are longest just if there are blanks between them.** -/
theorem lexing_iff {ps : List Piece} : Lexing cs ps tail ↔ written ps tail = cs ∧
    (∀ p ∈ ps, p.Valid) ∧ (∀ c ∈ tail, Text.isBlank c = true) ∧ ps.IsChain Apart := by
  rw [List.isChain_iff_forall_rel_of_append_cons_cons]
  constructor
  · intro h
    refine ⟨h.written_eq, h.valid, h.isBlank, fun p q before after hps hp hq => ?_⟩
    have hbehind : ∀ q' ∈ q :: after, q'.Valid := fun q' hq' => h.valid q' (by simp_all)
    have hends := (h.isLongest before p (q :: after) hps hp).2
    exact (endsName_written_iff hp hbehind h.isBlank).mp hends q rfl hp hq
  · rintro ⟨hwritten, hvalid, hblank, hchain⟩
    refine ⟨hwritten, hvalid, hblank, fun before p after hps hp => ⟨?_, ?_⟩⟩
    · have hblanks := endsName_reverse_blanks (hvalid p (by simp [hps])).isBlank
      by_cases hnil : p.blanks = []
      · cases hbefore : before.reverse with
        | nil => rwa [List.reverse_eq_nil_iff.mp hbefore]
        | cons x xs =>
          obtain rfl := List.reverse_eq_cons_iff.mp hbefore
          have hx : ¬ IsWord x.lexeme := fun hword =>
            @hchain x p xs.reverse after (by simp [hps]) hword hp hnil
          rw [written_append_singleton, hnil]
          simpa using ((hvalid x (by simp [hps])).lexeme.endsName hx _).2
      · obtain ⟨c, reversed, hreversed⟩ :=
          List.exists_cons_of_ne_nil (mt List.reverse_eq_nil_iff.mp hnil)
        rw [hreversed, endsName_cons] at hblanks
        simpa [written, hreversed, endsName_cons] using hblanks
    · have hbehind : ∀ q ∈ after, q.Valid := fun q hq => hvalid q (by simp [hps, hq])
      rw [endsName_written_iff hp hbehind hblank]
      rintro q hq
      obtain ⟨after, rfl⟩ := List.head?_eq_some_iff.mp hq
      exact hchain hps

theorem lexing_nil : Lexing cs [] tail ↔ tail = cs ∧ ∀ c ∈ tail, Text.isBlank c = true := by
  simp [lexing_iff, written]

theorem lexing_cons {p : Piece} {ps : List Piece} : Lexing cs (p :: ps) tail ↔
    p.Valid ∧ ∃ rest, cs = p.blanks ++ (p.lexeme ++ rest) ∧ Lexing rest ps tail ∧
      (IsWord p.lexeme → EndsName rest) := by
  simp only [lexing_iff, written_cons, List.forall_mem_cons, List.isChain_cons]
  constructor
  · rintro ⟨rfl, ⟨hp, hvalid⟩, hblank, hapart, hchain⟩
    exact ⟨hp, written ps tail, rfl, ⟨rfl, hvalid, hblank, hchain⟩, fun hword =>
      (endsName_written_iff hword hvalid hblank).mpr hapart⟩
  · rintro ⟨hp, rest, rfl, ⟨rfl, hvalid, hblank, hchain⟩, hends⟩
    refine ⟨rfl, ⟨hp, hvalid⟩, hblank, fun q hq hword => ?_, hchain⟩
    exact (endsName_written_iff hword hvalid hblank).mp (hends hword) q hq hword

/-! ## The tokens of the pieces -/

theorem Piece.Valid.nextToken?_eq {p : Piece} (hp : p.Valid)
    (hrest : IsWord p.lexeme → EndsName rest) :
    nextToken? (p.blanks ++ (p.lexeme ++ rest)) = some (p.token, rest) := by
  obtain ⟨hword, ht⟩ | ⟨c, hc, hblank, hname, ht⟩ := hp.lexeme.cases
  · rw [nextToken?_word hp.isBlank hword.ne_nil hword.isNameChar (hrest hword), ht]
  · rw [hc, List.singleton_append, nextToken?_sign hp.isBlank hblank hname, ht]

theorem exists_lexing (cs : List Char) : ∃ ps tail, Lexing cs ps tail := by
  induction cs using tokens.induct with
  | case1 cs hnone => exact ⟨[], cs, lexing_nil.mpr ⟨rfl, isBlank_of_nextToken?_eq_none hnone⟩⟩
  | case2 cs t rest hsome ih =>
    obtain ⟨ps, tail, h⟩ := ih
    obtain ⟨blanks, hblanks, ⟨w, hne, hw, hrest, rfl, rfl⟩ | ⟨c, hblank, hname, rfl, rfl⟩⟩ :=
      nextToken?_cases hsome
    · have hword : IsWord w := ⟨hne, hw⟩
      exact ⟨⟨blanks, w, word w⟩ :: ps, tail, lexing_cons.mpr
        ⟨⟨hblanks, lexeme_word hword⟩, rest, rfl, h, fun _ => hrest⟩⟩
    · refine ⟨⟨blanks, [c], sign c⟩ :: ps, tail, lexing_cons.mpr
        ⟨⟨hblanks, lexeme_sign hblank hname⟩, rest, rfl, h, fun hword => ?_⟩⟩
      rw [hword.isNameChar c List.mem_cons_self] at hname
      cases hname

/-- **The tokens of a text are those of its lexemes.** -/
theorem Lexing.tokens_eq {ps : List Piece} (h : Lexing cs ps tail) :
    tokens cs = ps.map Piece.token := by
  induction ps generalizing cs with
  | nil =>
    obtain ⟨rfl, hblank⟩ := lexing_nil.mp h
    simpa [tokens_nil] using tokens_blanks hblank []
  | cons p ps ih =>
    obtain ⟨hp, rest, rfl, hrest, hends⟩ := lexing_cons.mp h
    rw [tokens_of_nextToken? (hp.nextToken?_eq hends), ih hrest, List.map_cons]

theorem Piece.Valid.takeWhile_blanks {p : Piece} (hp : p.Valid) (rest : List Char) :
    (p.blanks ++ (p.lexeme ++ rest)).takeWhile Text.isBlank = p.blanks := by
  obtain ⟨c, w, hc, hblank⟩ : ∃ c w, p.lexeme = c :: w ∧ Text.isBlank c = false := by
    obtain ⟨hword, -⟩ | ⟨c, hc, hblank, -⟩ := hp.lexeme.cases
    · obtain ⟨c, w, hc⟩ := List.exists_cons_of_ne_nil hword.ne_nil
      exact ⟨c, w, hc, isBlank_of_isNameChar (hword.isNameChar c (by simp [hc]))⟩
    · exact ⟨c, [], hc, hblank⟩
  rw [List.takeWhile_append_of_pos hp.isBlank, hc]
  simp [hblank]

/-- **There is one way only to write a text in pieces.** -/
theorem Lexing.unique {ps ps' : List Piece} {tail' : List Char} (h : Lexing cs ps tail)
    (h' : Lexing cs ps' tail') : ps = ps' ∧ tail = tail' := by
  induction ps generalizing cs ps' with
  | nil =>
    cases ps' with
    | nil => exact ⟨rfl, (lexing_nil.mp h).1.trans (lexing_nil.mp h').1.symm⟩
    | cons p' ps' => simpa [h.tokens_eq] using h'.tokens_eq
  | cons p ps ih =>
    cases ps' with
    | nil => simpa [h.tokens_eq] using h'.tokens_eq
    | cons p' ps' =>
      obtain ⟨hp, rest, rfl, hrest, hends⟩ := lexing_cons.mp h
      obtain ⟨hp', rest', heq, hrest', hends'⟩ := lexing_cons.mp h'
      have hnext := hp.nextToken?_eq hends
      have hblanks := hp.takeWhile_blanks rest
      rw [heq, hp'.nextToken?_eq hends', Option.some.injEq, Prod.mk.injEq] at hnext
      obtain ⟨htoken, rfl⟩ := hnext
      rw [heq, hp'.takeWhile_blanks] at hblanks
      rw [hblanks, List.append_cancel_left_eq, List.append_cancel_right_eq] at heq
      obtain ⟨rfl, rfl⟩ := ih hrest hrest'
      refine ⟨congrArg (· :: ps) ?_, rfl⟩
      obtain ⟨blanks, lexeme, token⟩ := p
      obtain ⟨blanks', lexeme', token'⟩ := p'
      exact (Piece.mk.injEq ..).mpr ⟨hblanks.symm, heq, htoken.symm⟩

/-! ## Other blanks -/

/-- **Blanks in front of a lexeme** can be changed where no run is made longer. -/
theorem Lexing.withBlanks {before after : List Piece} {p q : Piece}
    (h : Lexing cs (before ++ p :: q :: after) tail)
    (hnot : ¬ (IsWord p.lexeme ∧ IsWord q.lexeme)) (hblanks : ∀ c ∈ blanks, Text.isBlank c = true) :
    Lexing (written (before ++ p :: { q with blanks } :: after) tail)
      (before ++ p :: { q with blanks } :: after) tail := by
  obtain ⟨-, hvalid, htail, hchain⟩ := lexing_iff.mp h
  rw [List.isChain_append_cons_cons, List.isChain_cons] at hchain
  obtain ⟨hbefore, -, hbehind, hafter⟩ := hchain
  have hq : Piece.Valid { q with blanks } := ⟨hblanks, (hvalid q (by simp)).lexeme⟩
  refine lexing_iff.mpr ⟨rfl, fun x hx => ?_, htail, ?_⟩
  · simp only [List.mem_append, List.mem_cons] at hx
    rcases hx with hx | rfl | rfl | hx
    · exact hvalid x (by simp [hx])
    · exact hvalid x (by simp)
    · exact hq
    · exact hvalid x (by simp [hx])
  · rw [List.isChain_append_cons_cons, List.isChain_cons]
    exact ⟨hbefore, fun hp hq => absurd ⟨hp, hq⟩ hnot, hbehind, hafter⟩

/-! ## Token by token -/

theorem takeLookaheads_eq (cs : List Char) (count : Nat) :
    takeLookaheads cs count = (List.range count).map fun i => (tokens cs)[i]? := by
  induction count generalizing cs with
  | zero => rfl
  | succ count ih =>
    rw [takeLookaheads, ih, List.range_succ_eq_map, List.map_cons, List.map_map]
    cases hnext : nextToken? cs with
    | none =>
      simp [lookahead, hnext, tokens_of_nextToken?_eq_none hnext, tokens_nil, Function.comp_def]
    | some next => simp [lookahead, hnext, tokens_of_nextToken? hnext, Function.comp_def]

theorem tokens_text_of_mem {t : Token} (h : t ∈ tokens cs) (hlegal : ∀ c, t ≠ .illegal c) :
    tokens t.text.toList = [t] := by
  cases t with
  | name id => exact tokens_name (isRun_of_mem_tokens h).1
  | byWord => cbv
  | illegal c => exact absurd rfl (hlegal c)
  | plus | greater | leftParen | rightParen => exact tokens_text trivial

/-! ## The tokens of a text -/

/-- **The tokens of a text are those of its lexemes**, which it is written as in one way only. Blanks
between two lexemes change nothing, unless both are runs. -/
theorem lookaheads_exact (text : String) :
    (∃ ps tail, Lexing text.toList ps tail ∧
      (∀ ps' tail', Lexing text.toList ps' tail' → ps' = ps ∧ tail' = tail) ∧
      lookaheads text.toList = (ps.map fun p => some p.token) ++ [none]) ∧
    (∀ count, takeLookaheads text.toList count =
      (List.range count).map fun i => (tokens text.toList)[i]?) ∧
    ((∀ c, .illegal c ∉ tokens text.toList) →
      lookaheads (spaced (tokens text.toList)) = lookaheads text.toList) ∧
    (∀ before p q after tail blanks, Lexing text.toList (before ++ p :: q :: after) tail →
      ¬ (IsWord p.lexeme ∧ IsWord q.lexeme) → (∀ c ∈ blanks, Text.isBlank c = true) →
      lookaheads (written (before ++ p :: { q with blanks } :: after) tail) =
        lookaheads text.toList) := by
  refine ⟨?_, takeLookaheads_eq text.toList, fun hlegal => ?_,
    fun before p q after tail blanks h hnot hblanks => ?_⟩
  · obtain ⟨ps, tail, h⟩ := exists_lexing text.toList
    refine ⟨ps, tail, h, fun ps' tail' h' => h'.unique h, ?_⟩
    simp [lookaheads, h.tokens_eq]
  · have htext : ∀ t ∈ tokens text.toList, tokens t.text.toList = [t] := fun t ht =>
      tokens_text_of_mem ht fun c hc => hlegal c (hc ▸ ht)
    rw [lookaheads, tokens_spaced_of_text htext, lookaheads]
  · rw [lookaheads, lookaheads, h.tokens_eq, (h.withBlanks hnot hblanks).tokens_eq]
    simp

/-- The lexemes of `a.1+ (By)`. -/
def groupedPieces : List Piece :=
  [⟨[], ['a', '.', '1'], .name "a.1"⟩, ⟨[], ['+'], .plus⟩, ⟨[' '], ['('], .leftParen⟩,
    ⟨[], ['B', 'y'], .byWord⟩, ⟨[], [')'], .rightParen⟩]

theorem lexing_groupedPieces : Lexing "a.1+ (By)".toList groupedPieces [] := by
  refine lexing_iff.mpr ⟨rfl, ?_, nofun, by decide⟩
  simp only [groupedPieces, List.forall_mem_cons]
  exact ⟨⟨nofun, .name (by decide) (by decide)⟩, ⟨nofun, .plus⟩,
    ⟨List.forall_mem_singleton.mpr rfl, .leftParen⟩, ⟨nofun, .byWord (by decide) (by decide)⟩,
    ⟨nofun, .rightParen⟩, nofun⟩

theorem lookaheads_exact_grouped :
    (tokens "a.1+ (By)".toList = [.name "a.1", .plus, .leftParen, .byWord, .rightParen] ∧
      lookaheads "a.1 + ( by )".toList = lookaheads "a.1+ (By)".toList) ∧
    Lexing "a.1+ (By)".toList groupedPieces [] ∧
      lookaheads "a.1+(By)".toList = lookaheads "a.1+ (By)".toList := by
  have htokens : tokens "a.1+ (By)".toList =
      [.name "a.1", .plus, .leftParen, .byWord, .rightParen] := lexing_groupedPieces.tokens_eq
  have h := lookaheads_exact "a.1+ (By)"
  rw [htokens] at h
  have hspaced := h.2.2.1 (by simp)
  refine ⟨⟨htokens, hspaced⟩, lexing_groupedPieces, ?_⟩
  exact h.2.2.2 [⟨[], ['a', '.', '1'], .name "a.1"⟩] ⟨[], ['+'], .plus⟩ ⟨[' '], ['('], .leftParen⟩
    _ [] [] lexing_groupedPieces (by decide) nofun

end SurveyTables.Expression
