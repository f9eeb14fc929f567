import SurveyTables.Design.Description
import SurveyTables.Proofs.Expression.Printing

/-!
# Designs in writing

A design is written as its axes with ` by ` between them. If its ids can be named, it is read as it was
written: no id and no blank next to it is taken for a separator.

* `isSeparator_iff`: a separator, character by character;
* `segments_cons_of_not`, `segments_word_append`: characters that begin no separator belong to a segment;
* **`segments_spaced_append`**: a row of plain tokens holds no separator;
* `Design.axes`, `Design.text`, `Design.IsWritable`, `segments_text`: the axes of a design are the segments
  of its text;
* **`ofDescription_text`**: a design is read as it was written.
-/

namespace SurveyTables

open Expression

namespace Design

/-! ## Segments without separators -/

/-- The characters in front of the first part. -/
def Segments.addChars (cs : List Char) (s : Segments) : Segments :=
  { s with first := cs ++ s.first }

theorem segments_cons_of_not {c : Char} {cs : List Char}
    (h : isSeparator (c :: cs.take 3) = false) : segments (c :: cs) = (segments cs).addChar c := by
  match cs with
  | [] => rfl
  | [_] => rfl
  | [_, _] => rfl
  | c₂ :: c₃ :: c₄ :: rest => rw [segments, if_neg (by simpa using h)]

theorem isSeparator_iff {p : List Char} : isSeparator p = true ↔
    ∃ b y, (b = 'b' ∨ b = 'B') ∧ (y = 'y' ∨ y = 'Y') ∧ p = [' ', b, y, ' '] := by
  constructor
  · intro h
    unfold isSeparator at h
    split at h
    · simp only [Bool.and_eq_true, Bool.or_eq_true, beq_iff_eq] at h
      obtain ⟨⟨⟨rfl, hb⟩, hy⟩, rfl⟩ := h
      exact ⟨_, _, hb, hy, rfl⟩
    · exact nomatch h
  · rintro ⟨b, y, hb, hy, rfl⟩
    simp [isSeparator, hb, hy]

theorem isSeparator_eq_false {c : Char} (h : c ≠ ' ') (cs : List Char) :
    isSeparator (c :: cs) = false := by
  unfold isSeparator
  split
  · next heq =>
    obtain ⟨rfl, -⟩ := List.cons.inj heq
    simp [h]
  · rfl

theorem segments_word_append {w : List Char} (hw : ∀ c ∈ w, c ≠ ' ') (rest : List Char) :
    segments (w ++ rest) = (segments rest).addChars w := by
  induction w with
  | nil => rfl
  | cons c w ih =>
    have hc := isSeparator_eq_false (hw c List.mem_cons_self) ((w ++ rest).take 3)
    rw [List.cons_append, segments_cons_of_not hc, ih fun c hc => hw c (List.mem_cons_of_mem _ hc)]
    rfl

theorem segments_separator_append (rest : List Char) :
    segments (" by ".toList ++ rest) = (segments rest).addSeparator := rfl

/-! ## Plain tokens hold no separator -/

theorem ne_space_of_isPlain {t : Token} (ht : IsPlain t) : ∀ c ∈ t.text.toList, c ≠ ' ' := by
  cases t with
  | name id =>
    rintro c hc rfl
    exact absurd (ht.isNameChar ' ' hc) (by decide)
  | plus | greater | leftParen | rightParen => simp [Token.text]
  | byWord | illegal c => exact ht.elim

theorem word_eq_of_append {w rest more : List Char} {b y : Char} (hw : ∀ c ∈ w, c ≠ ' ')
    (hrest : EndsWord rest) (hb : b ≠ ' ') (hy : y ≠ ' ') (h : w ++ rest = b :: y :: ' ' :: more) :
    w = [b, y] := by
  have hhead : ∀ c cs, rest = c :: cs → c = ' ' := by
    intro c cs hcs
    rcases hrest with rfl | ⟨more, rfl⟩
    · exact nomatch hcs
    · exact (List.cons.inj hcs).1.symm
  match w with
  | [] => exact absurd (hhead b _ h) hb
  | [c] => exact absurd (hhead y _ (List.cons.inj h).2) hy
  | [c, c'] => simp only [List.cons_append, List.cons.injEq] at h; rw [h.1, h.2.1]
  | c :: c' :: c'' :: w =>
    simp only [List.cons_append, List.cons.injEq] at h
    exact absurd h.2.2.1 (hw c'' (by simp))

theorem exists_of_isSeparator {cs : List Char} (h : isSeparator (' ' :: cs.take 3) = true) :
    ∃ b y more, cs = b :: y :: ' ' :: more ∧ isBy [b, y] = true := by
  obtain ⟨b, y, hb, hy, heq⟩ := isSeparator_iff.mp h
  refine ⟨b, y, cs.drop 3, ?_, ?_⟩
  · rw [← List.take_append_drop 3 cs, (List.cons.inj heq).2]
    rfl
  · rcases hb with rfl | rfl <;> rcases hy with rfl | rfl <;> rfl

theorem ne_space_of_isBy {b y : Char} (h : isBy [b, y] = true) : b ≠ ' ' ∧ y ≠ ' ' := by
  constructor <;> rintro rfl <;> simp [isBy] at h

theorem not_isSeparator_of_isPlain {t : Token} (ht : IsPlain t) {rest : List Char}
    (hrest : EndsWord rest) : isSeparator (' ' :: (t.text.toList ++ rest).take 3) = false := by
  by_contra h
  rw [Bool.not_eq_false] at h
  obtain ⟨b, y, more, hcs, hby⟩ := exists_of_isSeparator h
  obtain ⟨hb, hy⟩ := ne_space_of_isBy hby
  have htext := word_eq_of_append (ne_space_of_isPlain ht) hrest hb hy hcs
  cases t with
  | name id =>
    have hnot := ht.not_isBy
    rw [Token.text] at htext
    rw [htext, hby] at hnot
    exact nomatch hnot
  | plus | greater | leftParen | rightParen => simp [Token.text] at htext
  | byWord | illegal c => exact ht.elim

/-- **A row of plain tokens holds no separator**, and none begins at its end. -/
theorem segments_spaced_append {ts : List Token} (h : ∀ t ∈ ts, IsPlain t) {rest : List Char}
    (hrest : EndsWord rest) : segments (spaced ts ++ rest) = (segments rest).addChars (spaced ts) := by
  induction ts with
  | nil => rfl
  | cons t ts ih =>
    have ht := h t List.mem_cons_self
    have ih := ih fun t ht => h t (List.mem_cons_of_mem _ ht)
    cases ts with
    | nil => rw [spaced_singleton, segments_word_append (ne_space_of_isPlain ht)]
    | cons u ts =>
      have hu := h u (List.mem_cons_of_mem _ List.mem_cons_self)
      -- what stands behind the next token
      obtain ⟨behind, hbehind, hends⟩ : ∃ behind,
          spaced (u :: ts) ++ rest = u.text.toList ++ behind ∧ EndsWord behind := by
        cases ts with
        | nil => exact ⟨rest, by rw [spaced_singleton], hrest⟩
        | cons v ts =>
          exact ⟨' ' :: (spaced (v :: ts) ++ rest),
            by rw [spaced_cons_cons, List.append_assoc, List.cons_append], .space _⟩
      have hnot := not_isSeparator_of_isPlain hu hends
      rw [← hbehind] at hnot
      rw [spaced_cons_cons, List.append_assoc, segments_word_append (ne_space_of_isPlain ht),
        List.cons_append, segments_cons_of_not hnot, ih]
      simp [Segments.addChars, Segments.addChar]

/-! ## The text of a design -/

/-- The axes of a design that are there. -/
def axes (d : Design) : List (List Group) :=
  d.rows :: d.columns :: d.additional.toList

/-- A design as it is written. -/
def text (d : Design) : String :=
  " by ".intercalate (d.axes.map axisText)

/-- Every axis that is there has groups, every group has variables, and all of these are names. -/
def IsWritable (d : Design) : Prop :=
  ∀ gs ∈ d.axes, IsAxis gs

instance (d : Design) : Decidable d.IsWritable :=
  inferInstanceAs (Decidable (∀ gs ∈ d.axes, IsAxis gs))

theorem segments_axes {axes : List (List Group)} (hne : axes ≠ [])
    (h : ∀ gs ∈ axes, IsAxis gs) :
    (segments (" by ".intercalate (axes.map axisText)).toList).toList =
      axes.map fun gs => spaced (axisTree gs).tokens := by
  induction axes with
  | nil => exact absurd rfl hne
  | cons gs axes ih =>
    have hgs := h gs List.mem_cons_self
    cases axes with
    | nil =>
      have hsegments := segments_spaced_append hgs.isPlain .nil
      rw [List.append_nil] at hsegments
      rw [List.map_singleton, String.intercalate_singleton, hgs.toList_axisText, hsegments]
      simp [Segments.addChars, segments, Segments.toList]
    | cons next axes =>
      have ih := ih (List.cons_ne_nil _ _) fun gs hmem => h gs (List.mem_cons_of_mem _ hmem)
      have hends : ∀ more, EndsWord (" by ".toList ++ more) := fun more => .space _
      rw [List.map_cons] at ih
      rw [List.map_cons, List.map_cons, String.intercalate_cons_cons, String.toList_append,
        String.toList_append, hgs.toList_axisText, List.append_assoc,
        segments_spaced_append hgs.isPlain (hends _), segments_separator_append, List.map_cons, ← ih]
      simp [Segments.addChars, Segments.addSeparator, Segments.toList]

theorem readAxis_spaced {gs : List Group} (h : IsAxis gs) (axis : Axis) :
    readAxis axis (spaced (axisTree gs).tokens) = .ok gs := by
  rw [readAxis, h.ofText_spaced]
  simp only [h.groups_axisTree]

theorem ofSegments_axes {d : Design} (h : d.IsWritable) :
    ofSegments (d.axes.map fun gs => spaced (axisTree gs).tokens) = .ok d := by
  obtain ⟨rows, columns, additional⟩ := d
  have hrows := readAxis_spaced (h rows (by simp [axes])) .rows
  have hcolumns := readAxis_spaced (h columns (by simp [axes])) .columns
  cases additional with
  | none =>
    show ofSegments [_, _] = _
    rw [ofSegments, hrows, hcolumns]
    rfl
  | some gs =>
    have hadditional := readAxis_spaced (h gs (by simp [axes])) .additional
    show ofSegments [_, _, _] = _
    rw [ofSegments, hrows, hcolumns]
    show (readAxis .additional (spaced (axisTree gs).tokens) >>= fun additional =>
      Except.ok ({ rows, columns, additional := some additional } : Design)) = _
    rw [hadditional]
    rfl

/-- **A design is read as it was written.** -/
theorem ofDescription_text {d : Design} (h : d.IsWritable) :
    ofDescriptionWithWarning d.text = .ok (d, none) ∧ ofDescription d.text = .ok d ∧
      ofDescriptionStrict d.text = .ok d := by
  have hsegments : (segments d.text.toList).toList =
      d.axes.map fun gs => spaced (axisTree gs).tokens :=
    segments_axes (List.cons_ne_nil _ _) h
  have hfew : (segments d.text.toList).toList.length ≤ 3 := by
    rw [hsegments, List.length_map]
    cases hadditional : d.additional <;> simp [axes, hadditional]
  have hwarning : ofDescriptionWithWarning d.text = .ok (d, none) := by
    have hextra : extraSegments? (segments d.text.toList).toList = none := if_neg (by omega)
    rw [ofDescriptionWithWarning, hextra, hsegments, ofSegments_axes h]
    rfl
  have hplain : ofDescription d.text = .ok d := by
    rw [ofDescription, hwarning]
    rfl
  refine ⟨hwarning, hplain, ?_⟩
  rw [ofDescriptionStrict, if_neg (by omega), hplain]

/-- A design with ids that look like the separator. -/
def lookalikes : Design where
  rows := [["q1", "by_1"], ["q.by"]]
  columns := [["b", "2020.wave"]]
  additional := some [["Byte"], ["y"]]

theorem ofDescription_text_lookalikes :
    (lookalikes.IsWritable ∧
      lookalikes.text = "q1 > by_1 + q.by by b > 2020.wave by Byte + y") ∧
    ofDescriptionWithWarning lookalikes.text = .ok (lookalikes, none) ∧
      ofDescription lookalikes.text = .ok lookalikes ∧
      ofDescriptionStrict lookalikes.text = .ok lookalikes :=
  ⟨by decide +kernel, ofDescription_text (by decide +kernel)⟩

end Design

end SurveyTables
