import Mathlib
import SurveyTables.Expression.Token

/-!
# The tokens of a text

* `IsName`: the words that can be the id of a variable;
* `nextToken?_cases`, `nextToken?_word`, `nextToken?_sign`: what stands at the beginning of a text that has
  a first token, and that this is enough;
* **`tokens_append`**: a text and one behind it that does not go on with a name have the tokens of both;
* `IsRun`, **`isRun_of_mem_tokens`**: the names among the tokens are longest runs of name characters.
-/

namespace SurveyTables.Expression

/-- A word that a description can name: it has only name characters and is not the axis keyword. -/
structure IsName (id : String) : Prop where
  ne_empty : id ≠ ""
  isNameChar : ∀ c ∈ id.toList, isNameChar c = true
  not_isBy : isBy id.toList = false

instance (id : String) : Decidable (IsName id) :=
  decidable_of_iff (id ≠ "" ∧ id.toList.all isNameChar = true ∧ isBy id.toList = false)
    ⟨fun ⟨hne, hchar, hby⟩ => ⟨hne, List.all_eq_true.mp hchar, hby⟩,
      fun h => ⟨h.1, List.all_eq_true.mpr h.2, h.3⟩⟩

theorem toNat_of_isNameChar {c : Char} (h : isNameChar c = true) :
    0x2E ≤ c.toNat ∧ c.toNat ≤ 0x7A := by
  simp only [isNameChar, Char.isAlphanum, Char.isAlpha, Char.isUpper, Char.isLower, Char.isDigit,
    Bool.or_eq_true, Bool.and_eq_true, decide_eq_true_eq, beq_iff_eq, ge_iff_le,
    UInt32.le_iff_toNat_le] at h
  have hn : c.toNat = c.val.toNat := rfl
  rcases h with (((⟨h₁, h₂⟩ | ⟨h₁, h₂⟩) | ⟨h₁, h₂⟩) | rfl) | rfl
  · simp at h₁ h₂; omega
  · simp at h₁ h₂; omega
  · simp at h₁ h₂; omega
  · decide
  · decide

theorem isBlank_of_isNameChar {c : Char} (h : isNameChar c = true) : Text.isBlank c = false := by
  obtain ⟨hlow, hhigh⟩ := toNat_of_isNameChar h
  simp only [Text.isBlank, Bool.or_eq_false_iff, Bool.and_eq_false_iff, decide_eq_false_iff_not,
    beq_eq_false_iff_ne]
  omega

/-! ## Where a name ends -/

/-- A name ends in front of the characters: there are none, or the first of them belongs to no name. -/
def EndsName (cs : List Char) : Prop :=
  ∀ c ∈ cs.head?, isNameChar c = false

theorem endsName_nil : EndsName [] := by
  simp [EndsName]

theorem endsName_cons {c : Char} {cs : List Char} : EndsName (c :: cs) ↔ isNameChar c = false := by
  simp [EndsName]

theorem endsName_dropWhile (cs : List Char) : EndsName (cs.dropWhile isNameChar) := by
  intro c hc
  have h := List.head?_dropWhile_not isNameChar cs
  rw [Option.mem_def.mp hc] at h
  exact h

theorem EndsName.append {cs ds : List Char} (hcs : EndsName cs) (hds : EndsName ds) :
    EndsName (cs ++ ds) := by
  cases cs with
  | nil => exact hds
  | cons c cs => exact endsName_cons.mpr (endsName_cons.mp hcs)

theorem EndsName.takeWhile_append {w cs : List Char} (hw : ∀ c ∈ w, isNameChar c = true)
    (hcs : EndsName cs) : (w ++ cs).takeWhile isNameChar = w := by
  rw [List.takeWhile_append_of_pos hw]
  cases cs with
  | nil => exact List.append_nil w
  | cons c cs =>
    rw [List.takeWhile_cons_of_neg (by rw [endsName_cons.mp hcs]; exact Bool.false_ne_true),
      List.append_nil]

theorem EndsName.dropWhile_append {w cs : List Char} (hw : ∀ c ∈ w, isNameChar c = true)
    (hcs : EndsName cs) : (w ++ cs).dropWhile isNameChar = cs := by
  rw [List.dropWhile_append_of_pos hw]
  cases cs with
  | nil => rfl
  | cons c cs =>
    exact List.dropWhile_cons_of_neg (by rw [endsName_cons.mp hcs]; exact Bool.false_ne_true)

/-! ## The first token -/

variable {blanks w cs ds rest : List Char} {c : Char} {t : Token}

theorem nextToken?_word (hblanks : ∀ c ∈ blanks, Text.isBlank c = true) (hne : w ≠ [])
    (hw : ∀ c ∈ w, isNameChar c = true) (hrest : EndsName rest) :
    nextToken? (blanks ++ (w ++ rest)) = some (word w, rest) := by
  obtain ⟨c, w, rfl⟩ := List.exists_cons_of_ne_nil hne
  have hc := hw c List.mem_cons_self
  have hw' : ∀ c ∈ w, isNameChar c = true := fun c' hc' => hw c' (List.mem_cons_of_mem _ hc')
  rw [nextToken?, List.dropWhile_append_of_pos hblanks, List.cons_append,
    List.dropWhile_cons_of_neg (by rw [isBlank_of_isNameChar hc]; exact Bool.false_ne_true)]
  simp only [hc, if_true, hrest.takeWhile_append hw', hrest.dropWhile_append hw']

theorem nextToken?_sign (hblanks : ∀ c ∈ blanks, Text.isBlank c = true)
    (hblank : Text.isBlank c = false) (hname : isNameChar c = false) :
    nextToken? (blanks ++ c :: rest) = some (sign c, rest) := by
  rw [nextToken?, List.dropWhile_append_of_pos hblanks,
    List.dropWhile_cons_of_neg (by rw [hblank]; exact Bool.false_ne_true)]
  simp only [hname, Bool.false_eq_true, if_false]

theorem nextToken?_blanks (hblanks : ∀ c ∈ blanks, Text.isBlank c = true) (cs : List Char) :
    nextToken? (blanks ++ cs) = nextToken? cs := by
  rw [nextToken?, nextToken?, List.dropWhile_append_of_pos hblanks]

theorem isBlank_of_nextToken?_eq_none (h : nextToken? cs = none) :
    ∀ c ∈ cs, Text.isBlank c = true := by
  unfold nextToken? at h
  split at h
  · next hnil => exact List.dropWhile_eq_nil_iff.mp hnil
  · split at h <;> exact nomatch h

/-- **The first token** is a word up to its end, or a sign, behind blanks. -/
theorem nextToken?_cases (h : nextToken? cs = some (t, rest)) :
    ∃ blanks, (∀ c ∈ blanks, Text.isBlank c = true) ∧
      ((∃ w, w ≠ [] ∧ (∀ c ∈ w, isNameChar c = true) ∧ EndsName rest ∧ t = word w ∧
          cs = blanks ++ (w ++ rest)) ∨
        ∃ c, Text.isBlank c = false ∧ isNameChar c = false ∧ t = sign c ∧
          cs = blanks ++ c :: rest) := by
  have hsplit := (List.takeWhile_append_dropWhile (p := Text.isBlank) (l := cs)).symm
  refine ⟨cs.takeWhile Text.isBlank, fun c hc => List.mem_takeWhile_imp hc, ?_⟩
  unfold nextToken? at h
  split at h
  · exact nomatch h
  · next c tail hc =>
    rw [hc] at hsplit
    split at h
    · next hname =>
      obtain ⟨rfl, rfl⟩ := Prod.mk.inj (Option.some.inj h)
      refine .inl ⟨c :: tail.takeWhile isNameChar, List.cons_ne_nil _ _, fun c' hc' => ?_,
        endsName_dropWhile tail, rfl, ?_⟩
      · rcases List.mem_cons.mp hc' with rfl | hc'
        · exact hname
        · exact List.mem_takeWhile_imp hc'
      · rwa [List.cons_append, List.takeWhile_append_dropWhile]
    · next hname =>
      obtain ⟨rfl, rfl⟩ := Prod.mk.inj (Option.some.inj h)
      have hblank := List.head?_dropWhile_not Text.isBlank cs
      rw [hc] at hblank
      exact .inr ⟨c, hblank, Bool.eq_false_iff.mpr hname, rfl, hsplit⟩

theorem nextToken?_append (h : nextToken? cs = some (t, rest)) (hds : EndsName ds) :
    nextToken? (cs ++ ds) = some (t, rest ++ ds) := by
  obtain ⟨blanks, hblanks, ⟨w, hne, hw, hrest, rfl, rfl⟩ | ⟨c, hblank, hname, rfl, rfl⟩⟩ :=
    nextToken?_cases h
  · rw [List.append_assoc, List.append_assoc, nextToken?_word hblanks hne hw (hrest.append hds)]
  · rw [List.append_assoc, List.cons_append, nextToken?_sign hblanks hblank hname]

/-! ## All tokens -/

theorem tokens_of_nextToken?_eq_none (h : nextToken? cs = none) : tokens cs = [] := by
  rw [tokens]
  split
  · rfl
  · next hsome =>
    rw [h] at hsome
    contradiction

theorem tokens_nil : tokens [] = [] :=
  tokens_of_nextToken?_eq_none rfl

theorem tokens_of_nextToken? (h : nextToken? cs = some (t, rest)) :
    tokens cs = t :: tokens rest := by
  rw [tokens]
  split
  · next hnone =>
    rw [h] at hnone
    contradiction
  · next t' rest' hsome =>
    rw [h] at hsome
    obtain ⟨rfl, rfl⟩ := Prod.mk.inj (Option.some.inj hsome)
    rfl

theorem tokens_blanks (hblanks : ∀ c ∈ blanks, Text.isBlank c = true) (cs : List Char) :
    tokens (blanks ++ cs) = tokens cs := by
  have h := nextToken?_blanks hblanks cs
  cases hnext : nextToken? cs with
  | none => rw [tokens_of_nextToken?_eq_none (h.trans hnext), tokens_of_nextToken?_eq_none hnext]
  | some next => rw [tokens_of_nextToken? (h.trans hnext), tokens_of_nextToken? hnext]

theorem tokens_space (cs : List Char) : tokens (' ' :: cs) = tokens cs := by
  have hblanks : ∀ c ∈ [' '], Text.isBlank c = true := List.forall_mem_singleton.mpr rfl
  exact tokens_blanks hblanks cs

theorem tokens_plus (cs : List Char) : tokens ('+' :: cs) = .plus :: tokens cs :=
  tokens_of_nextToken? rfl

theorem tokens_greater (cs : List Char) : tokens ('>' :: cs) = .greater :: tokens cs :=
  tokens_of_nextToken? rfl

theorem tokens_leftParen (cs : List Char) : tokens ('(' :: cs) = .leftParen :: tokens cs :=
  tokens_of_nextToken? rfl

theorem tokens_rightParen (cs : List Char) : tokens (')' :: cs) = .rightParen :: tokens cs :=
  tokens_of_nextToken? rfl

/-- **The tokens of a text and one behind it** that does not go on with a name. -/
theorem tokens_append (hds : EndsName ds) : tokens (cs ++ ds) = tokens cs ++ tokens ds := by
  induction cs using tokens.induct with
  | case1 cs hnone =>
    rw [tokens_blanks (isBlank_of_nextToken?_eq_none hnone), tokens_of_nextToken?_eq_none hnone,
      List.nil_append]
  | case2 cs t rest hsome ih =>
    rw [tokens_of_nextToken? (nextToken?_append hsome hds), tokens_of_nextToken? hsome, ih,
      List.cons_append]

theorem tokens_name {id : String} (h : IsName id) : tokens id.toList = [.name id] := by
  have hne : id.toList ≠ [] := mt String.toList_eq_nil_iff.mp h.ne_empty
  have hnext : nextToken? ([] ++ (id.toList ++ [])) = some (word id.toList, []) :=
    nextToken?_word (by simp) hne h.isNameChar endsName_nil
  rw [List.nil_append, List.append_nil] at hnext
  rw [tokens_of_nextToken? hnext, tokens_nil, word, h.not_isBy, String.ofList_toList]
  rfl

/-! ## The names among the tokens -/

/-- The word is a longest run of name characters in the text. -/
structure IsRun (w cs : List Char) : Prop where
  ne_nil : w ≠ []
  isNameChar : ∀ c ∈ w, isNameChar c = true
  exists_eq : ∃ before behind, cs = before ++ (w ++ behind) ∧ EndsName before.reverse ∧
    EndsName behind

theorem IsRun.append {before behind : List Char} (h : IsRun w cs) (hbefore : EndsName before.reverse)
    (hbehind : EndsName behind) : IsRun w (before ++ (cs ++ behind)) where
  ne_nil := h.ne_nil
  isNameChar := h.isNameChar
  exists_eq := by
    obtain ⟨before', behind', rfl, hbefore', hbehind'⟩ := h.exists_eq
    refine ⟨before ++ before', behind' ++ behind, by simp, ?_, hbehind'.append hbehind⟩
    rw [List.reverse_append]
    exact hbefore'.append hbefore

theorem IsRun.append_left (h : IsRun w cs) (hcs : EndsName cs) (before : List Char) :
    IsRun w (before ++ cs) where
  ne_nil := h.ne_nil
  isNameChar := h.isNameChar
  exists_eq := by
    obtain ⟨before', behind', rfl, hbefore', hbehind'⟩ := h.exists_eq
    refine ⟨before ++ before', behind', by simp, ?_, hbehind'⟩
    rw [List.reverse_append]
    cases hempty : before'.reverse with
    | nil =>
      obtain ⟨c, w, rfl⟩ := List.exists_cons_of_ne_nil h.ne_nil
      rw [List.reverse_eq_nil_iff.mp hempty, List.nil_append, List.cons_append, endsName_cons,
        h.isNameChar c List.mem_cons_self] at hcs
      exact nomatch hcs
    | cons c cs =>
      rw [hempty] at hbefore'
      exact endsName_cons.mpr (endsName_cons.mp hbefore')

theorem sign_ne_name (c : Char) (id : String) : sign c ≠ .name id := by
  unfold sign
  split_ifs <;> exact nofun

theorem isName_of_word_eq {id : String} (hne : w ≠ []) (hw : ∀ c ∈ w, isNameChar c = true)
    (h : word w = .name id) : IsName id ∧ id.toList = w := by
  unfold word at h
  split at h
  · exact nomatch h
  · next hby =>
    obtain rfl := Token.name.inj h
    have hid : (String.ofList w).toList = w := String.toList_ofList
    refine ⟨⟨fun hempty => hne ?_, ?_, ?_⟩, hid⟩
    · rw [← hid, hempty]
      rfl
    · rwa [hid]
    · rw [hid]
      exact Bool.eq_false_iff.mpr hby

theorem endsName_reverse_blanks (hblanks : ∀ c ∈ blanks, Text.isBlank c = true) :
    EndsName blanks.reverse := by
  intro c hc
  have hblank := hblanks c (List.mem_reverse.mp (List.mem_of_mem_head? hc))
  by_contra hname
  rw [Bool.not_eq_false] at hname
  rw [isBlank_of_isNameChar hname] at hblank
  exact nomatch hblank

/-- **A name among the tokens** can be the id of a variable, and it is a longest run of name characters
in the text. -/
theorem isRun_of_mem_tokens {id : String} (h : .name id ∈ tokens cs) :
    IsName id ∧ IsRun id.toList cs := by
  induction cs using tokens.induct with
  | case1 cs hnone =>
    rw [tokens_of_nextToken?_eq_none hnone] at h
    exact absurd h List.not_mem_nil
  | case2 cs t rest hsome ih =>
    rw [tokens_of_nextToken? hsome, List.mem_cons] at h
    obtain ⟨blanks, hblanks, ⟨w, hne, hw, hrest, rfl, rfl⟩ | ⟨c, -, hname, rfl, rfl⟩⟩ :=
      nextToken?_cases hsome
    · rcases h with hid | hmem
      · obtain ⟨hisName, hid⟩ := isName_of_word_eq hne hw hid.symm
        rw [hid]
        exact ⟨hisName, hne, hw, blanks, rest, rfl, endsName_reverse_blanks hblanks, hrest⟩
      · obtain ⟨hisName, hrun⟩ := ih hmem
        rw [← List.append_assoc]
        exact ⟨hisName, hrun.append_left hrest _⟩
    · rcases h with hid | hmem
      · exact absurd hid.symm (sign_ne_name c id)
      · obtain ⟨hisName, hrun⟩ := ih hmem
        have hends : EndsName (blanks ++ [c]).reverse := by
          rw [List.reverse_append, List.reverse_singleton]
          exact endsName_cons.mpr hname
        have hrun := hrun.append hends endsName_nil
        rw [List.append_nil, List.append_assoc, List.singleton_append] at hrun
        exact ⟨hisName, hrun⟩

end SurveyTables.Expression
