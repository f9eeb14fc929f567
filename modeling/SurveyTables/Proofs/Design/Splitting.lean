import SurveyTables.Proofs.Design.Printing

/-!
# Where a description is split

A description is cut at the first separator, and what is behind it again. There is one way only to do so,
and a scan byte by byte finds the same cuts.

* `SeparatorAt`, `Splits`: a text with the segments and the separators that it is made of;
* `segments_append`, **`splits_segments`**, **`Splits.toList_segments_eq`**: the segments of a text are the
  ones that it is split into;
* `byteSpans`: the segments found byte by byte in UTF-8;
* `isSeparatorBytes_take`, **`byteSpans_utf8`**: no separator begins within a character;
* `IsSpan`, `Splits.isSpan`: the segments as the bytes of the text from one place to another;
* **`segmentTexts_splits`**.
-/

namespace SurveyTables.Design

/-! ## Texts and their segments -/

/-- A separator begins at the place. -/
def SeparatorAt (cs : List Char) (i : Nat) : Prop :=
  isSeparator ((cs.drop i).take 4) = true

/-- The text is split into segments by separators: it is a segment itself, or it begins with a segment and
the first separator of the text, and what is behind them is split. No segment holds a separator. -/
inductive Splits : List Char → List (List Char) → List (List Char) → Prop where
  | whole {s : List Char} : (∀ i, ¬ SeparatorAt s i) → Splits s [s] []
  | cut {s p rest : List Char} {parts separators : List (List Char)} :
    (∀ i, ¬ SeparatorAt s i) → isSeparator p = true → (∀ i < s.length, ¬ SeparatorAt (s ++ p) i) →
    Splits rest parts separators → Splits (s ++ p ++ rest) (s :: parts) (p :: separators)

variable {cs s p rest : List Char} {parts separators : List (List Char)} {c : Char}

theorem length_of_isSeparator (hp : isSeparator p = true) : p.length = 4 := by
  obtain ⟨b, y, -, -, rfl⟩ := isSeparator_iff.mp hp
  rfl

theorem segments_separator (hp : isSeparator p = true) (rest : List Char) :
    segments (p ++ rest) = (segments rest).addSeparator := by
  obtain ⟨b, y, -, -, rfl⟩ := isSeparator_iff.mp hp
  show segments (' ' :: b :: y :: ' ' :: rest) = _
  rw [segments, if_pos hp]

theorem separatorAt_succ {i : Nat} : SeparatorAt (c :: cs) (i + 1) ↔ SeparatorAt cs i := by
  rw [SeparatorAt, SeparatorAt, List.drop_succ_cons]

theorem separatorAt_zero : SeparatorAt (c :: cs) 0 ↔ isSeparator (c :: cs.take 3) = true := by
  rw [SeparatorAt, List.drop_zero, List.take_succ_cons]

/-- Texts are taken apart as they are scanned: four characters at a separator, else one. -/
theorem scan_induction {motive : List Char → Prop} (nil : motive [])
    (separator : ∀ p rest, isSeparator p = true → motive rest → motive (p ++ rest))
    (cons : ∀ c cs, isSeparator (c :: cs.take 3) = false → motive cs → motive (c :: cs)) :
    ∀ cs, motive cs := by
  intro cs
  induction cs using segments.induct with
  | case1 c₁ c₂ c₃ c₄ rest hsep ih => exact separator [c₁, c₂, c₃, c₄] rest hsep ih
  | case2 c₁ c₂ c₃ c₄ rest hsep ih => exact cons c₁ _ (by simpa using hsep) ih
  | case3 cs hshort =>
    -- fewer than four characters
    match cs with
    | [] => exact nil
    | [_] => exact cons _ _ rfl nil
    | [_, _] => exact cons _ _ rfl (cons _ _ rfl nil)
    | [_, _, _] => exact cons _ _ rfl (cons _ _ rfl (cons _ _ rfl nil))
    | c₁ :: c₂ :: c₃ :: c₄ :: rest => exact absurd rfl (hshort c₁ c₂ c₃ c₄ rest)

/-! ## The segments split the text -/

theorem Splits.cons (h : Splits cs (s :: parts) separators)
    (hc : isSeparator (c :: cs.take 3) = false) :
    Splits (c :: cs) ((c :: s) :: parts) separators := by
  have hzero : ¬ SeparatorAt (c :: cs) 0 := by
    rw [separatorAt_zero, hc]
    exact Bool.false_ne_true
  cases h with
  | whole hfree =>
    refine .whole fun i => ?_
    cases i with
    | zero => exact hzero
    | succ i => exact mt separatorAt_succ.mp (hfree i)
  | @cut _ p rest _ separators hfree hp hfirst hrest =>
    have hlength := length_of_isSeparator hp
    have htake : ((c :: (s ++ p ++ rest)).drop 0).take 4 = ((c :: s ++ p).drop 0).take 4 := by
      rw [List.drop_zero, List.drop_zero, ← List.cons_append, ← List.cons_append,
        List.take_append_of_le_length (by simp; omega)]
    rw [SeparatorAt, htake] at hzero
    refine .cut (s := c :: s) (fun i => ?_) hp (fun i hi => ?_) hrest
    · cases i with
      | zero =>
        -- a separator at the beginning of the segment would have all its characters there
        intro h
        have hs := length_of_isSeparator h
        rw [List.drop_zero, List.length_take] at hs
        rw [List.drop_zero, List.take_append_of_le_length (by omega)] at hzero
        exact hzero h
      | succ i => exact mt separatorAt_succ.mp (hfree i)
    · cases i with
      | zero => exact hzero
      | succ i =>
        exact mt separatorAt_succ.mp (hfirst i (Nat.lt_of_succ_lt_succ hi))

/-- **The segments of a text split it.** -/
theorem splits_segments (cs : List Char) :
    ∃ separators, Splits cs (segments cs).toList separators := by
  induction cs using scan_induction with
  | nil => exact ⟨[], .whole fun i => by simp [SeparatorAt, isSeparator]⟩
  | separator p rest hp ih =>
    obtain ⟨separators, h⟩ := ih
    rw [segments_separator hp]
    refine ⟨p :: separators, .cut (s := []) (fun i => ?_) hp (fun i hi => ?_) h⟩
    · simp [SeparatorAt, isSeparator]
    · exact absurd hi (Nat.not_lt_zero i)
  | cons c cs hc ih =>
    obtain ⟨separators, h⟩ := ih
    rw [segments_cons_of_not hc]
    exact ⟨separators, h.cons hc⟩

/-! ## There are no others -/

theorem segments_of_not_separatorAt (h : ∀ i, ¬ SeparatorAt s i) : (segments s).toList = [s] := by
  induction s with
  | nil => rfl
  | cons c s ih =>
    have hc := mt separatorAt_zero.mpr (h 0)
    have ih := ih fun i => mt separatorAt_succ.mpr (h (i + 1))
    rw [Segments.toList, List.cons.injEq] at ih
    rw [segments_cons_of_not (by simpa using hc), Segments.toList, Segments.addChar, ih.1, ih.2]

theorem segments_append (hp : isSeparator p = true) (h : ∀ i < s.length, ¬ SeparatorAt (s ++ p) i)
    (rest : List Char) : (segments (s ++ p ++ rest)).toList = s :: (segments rest).toList := by
  induction s with
  | nil => rw [List.nil_append, segments_separator hp]; rfl
  | cons c s ih =>
    have hlength := length_of_isSeparator hp
    have hc : isSeparator (c :: (s ++ p ++ rest).take 3) = false := by
      have hzero := mt separatorAt_zero.mpr (h 0 (by simp))
      rw [List.take_append_of_le_length (by simp; omega)]
      simpa using hzero
    have ih := ih fun i hi => mt separatorAt_succ.mpr (h (i + 1) (by simpa using hi))
    rw [Segments.toList, List.cons.injEq] at ih
    rw [List.cons_append, List.cons_append, segments_cons_of_not hc, Segments.toList,
      Segments.addChar, ih.1, ih.2]

/-- **A text is split into its segments only.** -/
theorem Splits.toList_segments_eq (h : Splits cs parts separators) :
    (segments cs).toList = parts := by
  induction h with
  | whole hfree => exact segments_of_not_separatorAt hfree
  | cut _ hp hfirst _ ih => rw [segments_append hp hfirst, ih]

theorem Splits.parts_ne_nil (h : Splits cs parts separators) : parts ≠ [] := by
  cases h <;> exact List.cons_ne_nil _ _

theorem Splits.behind_first (h : Splits cs (s :: parts) separators) :
    parts = [] ∧ separators = [] ∨
      ∃ p rest separators', isSeparator p = true ∧ cs = s ++ p ++ rest ∧
        separators = p :: separators' ∧ Splits rest parts separators' := by
  cases h with
  | whole _ => exact .inl ⟨rfl, rfl⟩
  | cut _ hp _ hrest => exact .inr ⟨_, _, _, hp, rfl, rfl, hrest⟩

theorem Splits.separators_eq {separators' : List (List Char)} (h : Splits cs parts separators)
    (h' : Splits cs parts separators') : separators = separators' := by
  induction h generalizing separators' with
  | whole _ =>
    obtain ⟨-, rfl⟩ | ⟨p, rest, separators', -, -, -, hrest⟩ := h'.behind_first
    · rfl
    · exact absurd rfl hrest.parts_ne_nil
  | cut _ hp _ hrest ih =>
    obtain ⟨hnil, -⟩ | ⟨p', rest', separators', hp', heq, rfl, hrest'⟩ := h'.behind_first
    · exact absurd hnil hrest.parts_ne_nil
    · rw [List.append_assoc, List.append_assoc, List.append_cancel_left_eq] at heq
      obtain ⟨rfl, rfl⟩ := List.append_inj heq
        ((length_of_isSeparator hp).trans (length_of_isSeparator hp').symm)
      rw [ih hrest']

/-! ## Byte by byte -/

/-- The bytes of the characters in UTF-8. -/
def utf8 (cs : List Char) : List UInt8 :=
  cs.flatMap String.utf8EncodeChar

/-- The bytes are those of a separator. -/
def isSeparatorBytes : List UInt8 → Bool
  | [before, b, y, after] =>
    before == 0x20 && (b == 0x62 || b == 0x42) && (y == 0x79 || y == 0x59) && after == 0x20
  | _ => false

/-- Where the segments begin and end, counted in bytes. The bytes are those behind the place `i`, and the
segment that is not ended yet begins at `start`. -/
def byteSpans (start i : Nat) : List UInt8 → List (Nat × Nat)
  | b₁ :: b₂ :: b₃ :: b₄ :: rest =>
    if isSeparatorBytes [b₁, b₂, b₃, b₄] then (start, i) :: byteSpans (i + 4) (i + 4) rest
    else byteSpans start (i + 1) (b₂ :: b₃ :: b₄ :: rest)
  | bs => [(start, i + bs.length)]

/-- Where the segments begin and end that stand behind each other with separators between them. -/
def spans (start : Nat) : List (List Char) → List (Nat × Nat)
  | [] => []
  | s :: parts => (start, start + (utf8 s).length) :: spans (start + (utf8 s).length + 4) parts

theorem utf8_cons (c : Char) (cs : List Char) :
    utf8 (c :: cs) = String.utf8EncodeChar c ++ utf8 cs :=
  List.flatMap_cons

theorem utf8_append (cs ds : List Char) : utf8 (cs ++ ds) = utf8 cs ++ utf8 ds :=
  List.flatMap_append

/-- A character of ASCII as a byte. -/
def asciiByte (c : Char) : UInt8 :=
  UInt8.ofNat c.toNat

theorem utf8EncodeChar_cases (c : Char) :
    c.toNat < 128 ∧ String.utf8EncodeChar c = [asciiByte c] ∨
      128 ≤ c.toNat ∧ ∀ b ∈ String.utf8EncodeChar c, 128 ≤ b.toNat := by
  have hval : c.val.toNat = c.toNat := rfl
  by_cases h : c.toNat < 128
  · exact .inl ⟨h, by rw [String.utf8EncodeChar, hval, if_pos (by omega), asciiByte]⟩
  · refine .inr ⟨by omega, ?_⟩
    rw [String.utf8EncodeChar, hval, if_neg (by omega)]
    split_ifs <;> simp <;> omega

theorem asciiByte_inj {a c : Char} (ha : a.toNat < 128) (hc : c.toNat < 128)
    (h : asciiByte a = asciiByte c) : a = c := by
  have hsize : 128 ≤ UInt8.size := by decide
  have htoNat := congrArg UInt8.toNat h
  rw [asciiByte, asciiByte, UInt8.toNat_ofNat_of_lt' (ha.trans_le hsize),
    UInt8.toNat_ofNat_of_lt' (hc.trans_le hsize)] at htoNat
  exact Char.toNat_inj.mp htoNat

theorem toNat_asciiByte {a : Char} (ha : a.toNat < 128) : (asciiByte a).toNat = a.toNat :=
  UInt8.toNat_ofNat_of_lt' (ha.trans_le (by decide))

theorem utf8_cons_of_lt {a : Char} (ha : a.toNat < 128) (cs : List Char) :
    utf8 (a :: cs) = asciiByte a :: utf8 cs := by
  rw [utf8_cons]
  obtain ⟨-, hone⟩ | ⟨hlarge, -⟩ := utf8EncodeChar_cases a
  · rw [hone, List.singleton_append]
  · omega

theorem utf8_eq_cons_iff {a : Char} (ha : a.toNat < 128) {bs : List UInt8} :
    utf8 cs = asciiByte a :: bs ↔ ∃ ds, cs = a :: ds ∧ utf8 ds = bs := by
  cases cs with
  | nil => simp [utf8]
  | cons c cs =>
    rw [utf8_cons]
    obtain ⟨hc, hone⟩ | ⟨hc, hmany⟩ := utf8EncodeChar_cases c
    · rw [hone, List.singleton_append, List.cons.injEq]
      constructor
      · rintro ⟨hbyte, hbs⟩
        exact ⟨cs, by rw [asciiByte_inj hc ha hbyte], hbs⟩
      · rintro ⟨ds, hds, hbs⟩
        obtain ⟨rfl, rfl⟩ := List.cons.inj hds
        exact ⟨rfl, hbs⟩
    · constructor
      · intro h
        -- the first byte of the character would be below 128
        have hpos : 0 < (String.utf8EncodeChar c).length := by
          rw [String.length_utf8EncodeChar]
          exact Char.utf8Size_pos c
        obtain ⟨b, bs', hbytes⟩ := List.exists_cons_of_length_pos hpos
        rw [hbytes, List.cons_append, List.cons.injEq] at h
        have hb := hmany b (by rw [hbytes]; exact List.mem_cons_self)
        rw [h.1, toNat_asciiByte ha] at hb
        omega
      · rintro ⟨ds, hds, -⟩
        obtain ⟨rfl, -⟩ := List.cons.inj hds
        omega

theorem utf8_eq_append_iff {bs : List UInt8} (hp : ∀ c ∈ p, c.toNat < 128) :
    utf8 cs = utf8 p ++ bs ↔ ∃ ds, cs = p ++ ds ∧ utf8 ds = bs := by
  induction p generalizing cs with
  | nil => simp [utf8]
  | cons a p ih =>
    have ha := hp a List.mem_cons_self
    have hp' : ∀ c ∈ p, c.toNat < 128 := fun c hc => hp c (List.mem_cons_of_mem _ hc)
    rw [utf8_cons_of_lt ha, List.cons_append, utf8_eq_cons_iff ha]
    constructor
    · rintro ⟨ds, rfl, hds⟩
      obtain ⟨ds, rfl, hbs⟩ := (ih hp').mp hds
      exact ⟨ds, rfl, hbs⟩
    · rintro ⟨ds, rfl, hbs⟩
      exact ⟨p ++ ds, rfl, (ih hp').mpr ⟨ds, rfl, hbs⟩⟩

theorem lt_of_isSeparator (hp : isSeparator p = true) : ∀ c ∈ p, c.toNat < 128 := by
  obtain ⟨b, y, hb, hy, rfl⟩ := isSeparator_iff.mp hp
  rcases hb with rfl | rfl <;> rcases hy with rfl | rfl <;> simp

theorem length_utf8_of_isSeparator (hp : isSeparator p = true) : (utf8 p).length = 4 := by
  obtain ⟨b, y, hb, hy, rfl⟩ := isSeparator_iff.mp hp
  rcases hb with rfl | rfl <;> rcases hy with rfl | rfl <;> rfl

theorem isSeparatorBytes_iff {q : List UInt8} :
    isSeparatorBytes q = true ↔ ∃ p, isSeparator p = true ∧ q = utf8 p := by
  constructor
  · intro h
    unfold isSeparatorBytes at h
    split at h
    · simp only [Bool.and_eq_true, Bool.or_eq_true, beq_iff_eq] at h
      obtain ⟨⟨⟨rfl, rfl | rfl⟩, rfl | rfl⟩, rfl⟩ := h
      · exact ⟨[' ', 'b', 'y', ' '], rfl, rfl⟩
      · exact ⟨[' ', 'b', 'Y', ' '], rfl, rfl⟩
      · exact ⟨[' ', 'B', 'y', ' '], rfl, rfl⟩
      · exact ⟨[' ', 'B', 'Y', ' '], rfl, rfl⟩
    · exact nomatch h
  · rintro ⟨p, hp, rfl⟩
    obtain ⟨b, y, hb, hy, rfl⟩ := isSeparator_iff.mp hp
    rcases hb with rfl | rfl <;> rcases hy with rfl | rfl <;> rfl

/-- **A separator is found in the bytes where it is in the characters.** -/
theorem isSeparatorBytes_take (cs : List Char) :
    isSeparatorBytes ((utf8 cs).take 4) = isSeparator (cs.take 4) := by
  rw [Bool.eq_iff_iff, isSeparatorBytes_iff]
  constructor
  · rintro ⟨p, hp, heq⟩
    have hbytes : utf8 cs = utf8 p ++ (utf8 cs).drop 4 := by rw [← heq, List.take_append_drop]
    obtain ⟨ds, rfl, -⟩ := (utf8_eq_append_iff (lt_of_isSeparator hp)).mp hbytes
    rwa [List.take_left' (length_of_isSeparator hp)]
  · intro h
    refine ⟨cs.take 4, h, ?_⟩
    have hbytes : utf8 cs = utf8 (cs.take 4) ++ utf8 (cs.drop 4) := by
      rw [← utf8_append, List.take_append_drop]
    rw [hbytes, List.take_left' (length_utf8_of_isSeparator h)]

theorem byteSpans_cons_of_not {start i : Nat} {b : UInt8} {bs : List UInt8}
    (h : isSeparatorBytes ((b :: bs).take 4) = false) :
    byteSpans start i (b :: bs) = byteSpans start (i + 1) bs := by
  match bs with
  | [] | [_] | [_, _] => simp [byteSpans]
  | b₂ :: b₃ :: b₄ :: rest => rw [byteSpans, if_neg (by simpa using h)]

theorem byteSpans_append_of_large {start i : Nat} {run : List UInt8}
    (h : ∀ b ∈ run, 128 ≤ b.toNat) (bs : List UInt8) :
    byteSpans start i (run ++ bs) = byteSpans start (i + run.length) bs := by
  induction run generalizing i with
  | nil => rfl
  | cons b run ih =>
    have hnot : isSeparatorBytes ((b :: (run ++ bs)).take 4) = false := by
      by_contra hsep
      rw [Bool.not_eq_false] at hsep
      obtain ⟨p, hp, heq⟩ := isSeparatorBytes_iff.mp hsep
      obtain ⟨_, _, -, -, rfl⟩ := isSeparator_iff.mp hp
      have hb := h b List.mem_cons_self
      rw [(List.cons.inj heq).1] at hb
      exact absurd hb (by decide)
    rw [List.cons_append, byteSpans_cons_of_not hnot, ih fun b hb => h b (List.mem_cons_of_mem _ hb),
      List.length_cons, Nat.add_assoc, Nat.add_comm 1]

theorem byteSpans_append_of_isSeparatorBytes {start i : Nat} {q bs : List UInt8}
    (hq : isSeparatorBytes ((q ++ bs).take 4) = true) (hlength : q.length = 4) :
    byteSpans start i (q ++ bs) = (start, i) :: byteSpans (i + 4) (i + 4) bs := by
  match q, hlength with
  | [b₁, b₂, b₃, b₄], _ =>
    show byteSpans start i (b₁ :: b₂ :: b₃ :: b₄ :: bs) = _
    rw [byteSpans, if_pos (by simpa using hq)]

theorem Segments.addChars_append (opened : List Char) (c : Char) (s : Segments) :
    s.addChars (opened ++ [c]) = (s.addChar c).addChars opened := by
  simp [addChars, addChar]

/-- **The scan byte by byte finds the segments.** The characters of the segment that is not ended yet are
`opened`. -/
theorem byteSpans_utf8 (start : Nat) (opened cs : List Char) :
    byteSpans start (start + (utf8 opened).length) (utf8 cs) =
      spans start ((segments cs).addChars opened).toList := by
  induction cs using scan_induction generalizing start opened with
  | nil => simp [utf8, byteSpans, spans, segments, Segments.addChars, Segments.toList]
  | separator p rest hp ih =>
    have hbytes : isSeparatorBytes ((utf8 p ++ utf8 rest).take 4) = true := by
      rw [← utf8_append, isSeparatorBytes_take, List.take_left' (length_of_isSeparator hp), hp]
    have hrest : byteSpans (start + (utf8 opened).length + 4) (start + (utf8 opened).length + 4)
        (utf8 rest) = spans (start + (utf8 opened).length + 4) (segments rest).toList :=
      ih (start + (utf8 opened).length + 4) []
    rw [utf8_append, byteSpans_append_of_isSeparatorBytes hbytes (length_utf8_of_isSeparator hp),
      hrest, segments_separator hp]
    simp [Segments.addSeparator, Segments.addChars, Segments.toList, spans]
  | cons c cs hc ih =>
    have hopened := ih start (opened ++ [c])
    rw [utf8_append, List.length_append, ← Nat.add_assoc, Segments.addChars_append] at hopened
    have hbytes : isSeparatorBytes ((utf8 (c :: cs)).take 4) = false := by
      rw [isSeparatorBytes_take, List.take_succ_cons, hc]
    rw [segments_cons_of_not hc]
    refine Eq.trans ?_ hopened
    rw [utf8_cons] at hbytes ⊢
    obtain ⟨-, hone⟩ | ⟨-, hmany⟩ := utf8EncodeChar_cases c
    · rw [hone, List.singleton_append] at hbytes ⊢
      rw [byteSpans_cons_of_not hbytes]
      simp [utf8, hone]
    · rw [byteSpans_append_of_large hmany]
      simp [utf8]

/-! ## Spans of a text -/

theorem toList_toUTF8 (text : String) : text.toUTF8.data.toList = utf8 text.toList := by
  rw [String.toUTF8_eq_toByteArray, ← String.utf8Encode_toList]
  exact List.toList_data_toByteArray

theorem utf8ByteSize_eq (text : String) : text.utf8ByteSize = (utf8 text.toList).length := by
  rw [← toList_toUTF8]
  rfl

/-- The segment stands in the text from its first byte up to the one behind it. What is in front of it and
what is behind it are texts, so no character is cut. -/
def IsSpan (text : String) (span : Nat × Nat) (segment : String) : Prop :=
  ∃ before behind, text = before ++ segment ++ behind ∧
    span = (before.utf8ByteSize, (before ++ segment).utf8ByteSize)

theorem Splits.isSpan (h : Splits cs parts separators) (before : List Char) :
    List.Forall₂ (IsSpan (String.ofList (before ++ cs))) (spans (utf8 before).length parts)
      (parts.map String.ofList) := by
  induction h generalizing before with
  | @whole s _ =>
    refine .cons ⟨String.ofList before, "", ?_, ?_⟩ .nil
    · rw [String.append_empty, String.ofList_append]
    · simp [utf8ByteSize_eq, utf8_append]
  | @cut s p rest parts _ _ hp _ _ ih =>
    have ih := ih (before ++ s ++ p)
    rw [utf8_append, utf8_append, List.length_append, List.length_append,
      length_utf8_of_isSeparator hp] at ih
    refine .cons ⟨String.ofList before, String.ofList (p ++ rest), ?_, ?_⟩ ?_
    · simp only [← String.ofList_append, List.append_assoc]
    · simp [utf8ByteSize_eq, utf8_append]
    · simpa using ih

/-- **A description is split in one way only**, with no separator within a segment, and the first one of
what is left behind each segment but the last. The scan byte by byte finds the same segments. -/
theorem segmentTexts_splits (text : String) :
    (∃ separators, Splits text.toList ((segmentTexts text).map String.toList) separators ∧
      ∀ parts' separators', Splits text.toList parts' separators' →
        parts' = (segmentTexts text).map String.toList ∧ separators' = separators) ∧
    List.Forall₂ (IsSpan text) (byteSpans 0 0 text.toUTF8.data.toList) (segmentTexts text) := by
  have hparts : (segmentTexts text).map String.toList = (segments text.toList).toList := by
    simp [segmentTexts, Function.comp_def]
  obtain ⟨separators, h⟩ := splits_segments text.toList
  constructor
  · rw [hparts]
    refine ⟨separators, h, fun parts' separators' h' => ?_⟩
    obtain rfl := h'.toList_segments_eq
    exact ⟨rfl, h'.separators_eq h⟩
  · have hbytes : byteSpans 0 0 (utf8 text.toList) = spans 0 (segments text.toList).toList :=
      byteSpans_utf8 0 [] text.toList
    have hspans := h.isSpan []
    rw [List.nil_append, String.ofList_toList] at hspans
    rw [toList_toUTF8, hbytes]
    exact hspans

-- the second candidate begins within the first separator
example : segmentTexts "a by by b" = ["a", "by b"] ∧
    byteSpans 0 0 "a by by b".toUTF8.data.toList = [(0, 1), (5, 9)] := by decide +kernel

end SurveyTables.Design
