import SurveyTables.Proofs.Design.Splitting

/-!
# Segments too many

A description is read from its first three segments. What stands behind the third separator can only be
dropped with a warning, or refused.

* `rejoined`, **`Splits.front`**: what stands in front of a separator is split like the whole text up to
  there;
* `UpToThird`, `segmentTexts_of_upToThird`: the part of a text up to its third separator;
* `ofDescription_eq`, `ofDescriptionWithWarning_eq`: the readings, segment by segment;
* `FailsFirst`, **`ofSegments_eq_error_iff`**: of the segments that are no expressions, the first one gives
  the error;
* **`ofDescription_extraSegments`**: the three readings, by the number of segments.
-/

namespace SurveyTables.Design

variable {cs : List Char} {parts parts' separators separators' : List (List Char)} {p : List Char}

/-! ## In front of a separator -/

/-- The segments, with the separators between them. -/
def rejoined : List (List Char) → List (List Char) → List Char
  | s :: parts, p :: separators => s ++ p ++ rejoined parts separators
  | parts, _ => parts.flatten

theorem rejoined_singleton (s : List Char) : rejoined [s] [] = s := by
  simp [rejoined]

theorem rejoined_cons_cons (s p : List Char) (parts separators : List (List Char)) :
    rejoined (s :: parts) (p :: separators) = s ++ p ++ rejoined parts separators := by
  rw [rejoined]

theorem Splits.length_eq (h : Splits cs parts separators) :
    parts.length = separators.length + 1 := by
  induction h with
  | whole _ => rfl
  | cut _ _ _ _ ih => simp [ih]

theorem Splits.not_separatorAt {s : List Char} (h : Splits cs (s :: parts) separators) (i : Nat) :
    ¬ SeparatorAt s i := by
  cases h with
  | whole hfree => exact hfree i
  | cut hfree _ _ _ => exact hfree i

theorem not_separatorAt_of_segments {s : List Char} (h : (segments s).toList = [s]) (i : Nat) :
    ¬ SeparatorAt s i := by
  obtain ⟨separators, hsplits⟩ := splits_segments s
  exact (h ▸ hsplits).not_separatorAt i

/-- **In front of a separator** a text is split as it is up to there. -/
theorem Splits.front (h : Splits cs (parts ++ parts') (separators ++ p :: separators'))
    (hlength : parts.length = separators.length + 1) :
    Splits (rejoined parts separators) parts separators := by
  generalize hall : parts ++ parts' = all at h
  generalize hseparators : separators ++ p :: separators' = allSeparators at h
  induction h generalizing parts separators with
  | whole _ => simp at hseparators
  | @cut s q rest all allSeparators hfree hq hfirst hrest ih =>
    cases separators with
    | nil =>
      obtain ⟨s', rfl⟩ := List.length_eq_one_iff.mp hlength
      obtain ⟨rfl, -⟩ := List.cons.inj hall
      rw [rejoined_singleton]
      exact .whole hfree
    | cons q' separators =>
      cases parts with
      | nil => simp at hlength
      | cons s' parts =>
        obtain ⟨rfl, rfl⟩ := List.cons.inj hall
        obtain ⟨rfl, rfl⟩ := List.cons.inj hseparators
        rw [rejoined_cons_cons]
        exact .cut hfree hq hfirst (ih (by simpa using hlength) rfl rfl)

/-- The text in front of its third separator. -/
def UpToThird (text front : String) : Prop :=
  ∃ s₀ p₁ s₁ p₂ s₂ p₃ parts separators,
    Splits text.toList (s₀ :: s₁ :: s₂ :: parts) (p₁ :: p₂ :: p₃ :: separators) ∧
    front.toList = s₀ ++ p₁ ++ s₁ ++ p₂ ++ s₂

theorem toList_segmentTexts (text : String) :
    (segmentTexts text).map String.toList = (segments text.toList).toList := by
  simp [segmentTexts, Function.comp_def]

theorem length_segmentTexts (text : String) :
    (segmentTexts text).length = (segments text.toList).toList.length := by
  rw [segmentTexts, List.length_map]

theorem exists_upToThird {text : String} (h : 3 < (segmentTexts text).length) :
    ∃ front, UpToThird text front := by
  obtain ⟨separators, hsplits⟩ := splits_segments text.toList
  rw [length_segmentTexts] at h
  have hlength := hsplits.length_eq
  match hparts : (segments text.toList).toList, separators with
  | s₀ :: s₁ :: s₂ :: parts, p₁ :: p₂ :: p₃ :: separators =>
    rw [hparts] at hsplits
    exact ⟨String.ofList (s₀ ++ p₁ ++ s₁ ++ p₂ ++ s₂), s₀, p₁, s₁, p₂, s₂, p₃, parts, separators,
      hsplits, String.toList_ofList⟩
  | [], _ | [_], _ | [_, _], _ | _ :: _ :: _ :: _, [] | _ :: _ :: _ :: _, [_]
  | _ :: _ :: _ :: _, [_, _] =>
    simp only [hparts, List.length_cons, List.length_nil] at h hlength
    omega

theorem UpToThird.segments_eq {text front : String} (h : UpToThird text front) :
    (segments front.toList).toList = (segments text.toList).toList.take 3 := by
  obtain ⟨s₀, p₁, s₁, p₂, s₂, p₃, parts, separators, hsplits, hfront⟩ := h
  have hsplit : Splits (rejoined [s₀, s₁, s₂] [p₁, p₂]) [s₀, s₁, s₂] [p₁, p₂] :=
    hsplits.front rfl
  have hrejoined : rejoined [s₀, s₁, s₂] [p₁, p₂] = front.toList := by
    simp [rejoined, hfront]
  rw [hsplits.toList_segments_eq, ← hrejoined, hsplit.toList_segments_eq]
  rfl

/-! ## Reading segment by segment -/

theorem ofDescriptionWithWarning_eq (text : String) : ofDescriptionWithWarning text =
    (ofSegments (segments text.toList).toList).map
      (·, extraSegments? (segments text.toList).toList) := by
  rw [ofDescriptionWithWarning]
  cases ofSegments (segments text.toList).toList <;> rfl

theorem ofDescription_eq (text : String) :
    ofDescription text = ofSegments (segments text.toList).toList := by
  rw [ofDescription, ofDescriptionWithWarning_eq]
  cases ofSegments (segments text.toList).toList <;> rfl

theorem ofSegments_take (all : List (List Char)) : ofSegments (all.take 3) = ofSegments all := by
  match all with
  | [] | [_] | [_, _] | _ :: _ :: _ :: _ => rfl

theorem ofSegments_of_lt {all : List (List Char)} (h : all.length < 2) :
    ofSegments all = .error (.tooFew all.length) := by
  match all with
  | [] | [_] => rfl
  | _ :: _ :: _ => simp at h

/-! ## The first failure -/

/-- The first of the segments that is no expression gives the error; it stands for an axis. -/
def FailsFirst (entries : List (Axis × String)) (e : DescriptionError) : Prop :=
  ∃ before axis segment after cause, entries = before ++ (axis, segment) :: after ∧
    (∀ entry ∈ before, ∃ x, Expression.ofText entry.2 = .ok x) ∧
    Expression.ofText segment = .error cause ∧
    e = .invalid axis (Text.trimmed segment) cause

theorem failsFirst_nil {e : DescriptionError} : ¬ FailsFirst [] e := by
  simp [FailsFirst]

theorem failsFirst_cons {axis : Axis} {segment : String} {entries : List (Axis × String)}
    {e : DescriptionError} : FailsFirst ((axis, segment) :: entries) e ↔
      readAxis axis segment.toList = .error e ∨
        (∃ gs, readAxis axis segment.toList = .ok gs) ∧ FailsFirst entries e := by
  rw [readAxis, String.ofList_toList]
  cases hread : Expression.ofText segment with
  | error cause =>
    constructor
    · rintro ⟨before, axis', segment', after, cause', hsplit, hok, herror, rfl⟩
      cases before with
      | nil =>
        simp only [List.nil_append, List.cons.injEq, Prod.mk.injEq] at hsplit
        obtain ⟨⟨rfl, rfl⟩, rfl⟩ := hsplit
        rw [hread, Except.error.injEq] at herror
        rw [herror]
        exact .inl rfl
      | cons entry before =>
        obtain ⟨rfl, -⟩ := List.cons.inj hsplit
        obtain ⟨x, hx⟩ := hok _ List.mem_cons_self
        simp [hread] at hx
    · rintro (h | ⟨⟨gs, h⟩, -⟩)
      · obtain rfl := Except.error.inj h
        exact ⟨[], axis, segment, entries, cause, rfl, by simp, hread, rfl⟩
      · cases h
  | ok x =>
    constructor
    · rintro ⟨before, axis', segment', after, cause, hsplit, hok, herror, rfl⟩
      cases before with
      | nil =>
        simp only [List.nil_append, List.cons.injEq, Prod.mk.injEq] at hsplit
        simp [← hsplit.1.2, hread] at herror
      | cons entry before =>
        obtain ⟨-, rfl⟩ := List.cons.inj hsplit
        exact .inr ⟨⟨_, rfl⟩, before, axis', segment', after, cause, rfl,
          fun entry h => hok entry (List.mem_cons_of_mem _ h), herror, rfl⟩
    · rintro (h | ⟨-, before, axis', segment', after, cause, rfl, hok, herror, rfl⟩)
      · cases h
      · refine ⟨(axis, segment) :: before, axis', segment', after, cause, rfl, ?_, herror, rfl⟩
        simpa [hread] using hok

/-- **The first segment that is no expression gives the error.** -/
theorem ofSegments_eq_error_iff {texts : List String} (h : 2 ≤ texts.length)
    {e : DescriptionError} : ofSegments (texts.map String.toList) = .error e ↔
      FailsFirst (Axis.all.zip texts) e := by
  match texts with
  | [] | [_] => simp at h
  | rows :: columns :: others =>
    simp only [Axis.all, List.zip_cons_cons, failsFirst_cons, List.map_cons, ofSegments]
    cases readAxis .rows rows.toList with
    | error e' => simp [bind, Except.bind]
    | ok gs =>
      cases readAxis .columns columns.toList with
      | error e' => simp [bind, Except.bind]
      | ok gs' =>
        cases others with
        | nil => simp [bind, Except.bind, pure, Except.pure, failsFirst_nil]
        | cons additional others =>
          simp only [List.zip_cons_cons, List.zip_nil_left, failsFirst_cons, failsFirst_nil,
            List.map_cons]
          cases readAxis .additional additional.toList <;>
            simp [bind, Except.bind, pure, Except.pure]

/-! ## The three readings -/

/-- **Segments too many change nothing but the warning**, save that the strict reading refuses them. The
error is that of the first axis whose segment is no expression. -/
theorem ofDescription_extraSegments (text : String) {n : Nat} (hn : (segmentTexts text).length = n) :
    (n < 2 → ofDescription text = .error (.tooFew n) ∧
      ofDescriptionWithWarning text = .error (.tooFew n) ∧
      ofDescriptionStrict text = .error (.tooFew n)) ∧
    (n = 2 ∨ n = 3 → ofDescriptionStrict text = ofDescription text ∧
      ofDescriptionWithWarning text = (ofDescription text).map (·, none)) ∧
    (3 < n → ofDescriptionStrict text = .error (.tooMany n) ∧
      (∃ front, UpToThird text front) ∧
      ∀ front, UpToThird text front → ofDescription text = ofDescription front ∧
        ofDescriptionWithWarning text = (ofDescription front).map
          (·, some { found := n, dropped := (segmentTexts text).drop 3 })) ∧
    (2 ≤ n → ∀ e, ofDescription text = .error e ↔
      FailsFirst (Axis.all.zip (segmentTexts text)) e) := by
  subst hn
  rw [ofDescriptionStrict, ofDescriptionWithWarning_eq, ofDescription_eq, ← length_segmentTexts]
  refine ⟨fun hfew => ?_, fun hn => ?_, fun hmany => ⟨if_pos hmany, exists_upToThird hmany, ?_⟩,
    fun htwo e => ?_⟩
  · have hread := ofSegments_of_lt (length_segmentTexts text ▸ hfew)
    rw [← length_segmentTexts] at hread
    rw [if_neg (by omega), hread]
    exact ⟨rfl, rfl, rfl⟩
  · have hnone : extraSegments? (segments text.toList).toList = none :=
      if_neg (by rw [← length_segmentTexts]; omega)
    rw [if_neg (by omega), hnone]
    exact ⟨rfl, rfl⟩
  · intro front hfront
    have hsome : extraSegments? (segments text.toList).toList =
        some { found := (segmentTexts text).length, dropped := (segmentTexts text).drop 3 } := by
      rw [extraSegments?, ← length_segmentTexts, if_pos hmany, segmentTexts, List.map_drop]
    rw [ofDescription_eq, hfront.segments_eq, ofSegments_take, hsome]
    exact ⟨rfl, rfl⟩
  · rw [← toList_segmentTexts]
    exact ofSegments_eq_error_iff htwo

/-- A text whose fourth segment is no expression, and one with two segments that are none. -/
theorem ofDescription_extraSegments_malformed :
    (segmentTexts "a by b BY (c) by > by" = ["a", "b", "(c)", "> by"] ∧
      ofDescriptionStrict "a by b BY (c) by > by" = .error (.tooMany 4) ∧
      UpToThird "a by b BY (c) by > by" "a by b BY (c)" ∧
      ofDescriptionWithWarning "a by b BY (c) by > by" = (ofDescription "a by b BY (c)").map
        (·, some { found := 4, dropped := ["> by"] })) ∧
    (segmentTexts "a by (b by > " = ["a", "(b", "> "] ∧
      ofDescriptionStrict "a by (b by > " = ofDescription "a by (b by > " ∧
      ofDescription "a by (b by > " =
        .error (.invalid .columns "(b" (.unclosed 1 none))) := by
  have htexts : segmentTexts "a by b BY (c) by > by" = ["a", "b", "(c)", "> by"] := by
    decide +kernel
  have htexts' : segmentTexts "a by (b by > " = ["a", "(b", "> "] := by decide +kernel
  have hfront : UpToThird "a by b BY (c) by > by" "a by b BY (c)" := by
    have hsplits : Splits (['a'] ++ [' ', 'b', 'y', ' '] ++ (['b'] ++ [' ', 'B', 'Y', ' '] ++
        (['(', 'c', ')'] ++ [' ', 'b', 'y', ' '] ++ ['>', ' ', 'b', 'y']))) _ _ :=
      .cut (not_separatorAt_of_segments rfl) rfl (by unfold SeparatorAt; decide)
        (.cut (not_separatorAt_of_segments rfl) rfl (by unfold SeparatorAt; decide)
          (.cut (not_separatorAt_of_segments rfl) rfl (by unfold SeparatorAt; decide)
            (.whole (not_separatorAt_of_segments rfl))))
    exact ⟨_, _, _, _, _, _, _, _, hsplits, rfl⟩
  have h := ofDescription_extraSegments "a by b BY (c) by > by" (n := 4) (by rw [htexts]; rfl)
  have h' := ofDescription_extraSegments "a by (b by > " (n := 3) (by rw [htexts']; rfl)
  obtain ⟨hstrict, -, hread⟩ := h.2.2.1 (by decide)
  rw [htexts] at hread
  refine ⟨⟨htexts, hstrict, hfront, (hread _ hfront).2⟩, htexts', (h'.2.1 (.inr rfl)).1, ?_⟩
  rw [h'.2.2.2 (by decide), htexts']
  refine ⟨[(.rows, "a")], .columns, "(b", [(.additional, "> ")], .unclosed 1 none, rfl, ?_, ?_, ?_⟩
  · have ha : Expression.ofText "a" = .ok (.single "a") := by cbv
    simpa using ⟨_, ha⟩
  · cbv
  · decide +kernel

end SurveyTables.Design
