import SurveyTables.Proofs.Tabulation.Tally

/-!
# Sums in arrays

The sums of a table can be kept in arrays: one table of sums for each pair of a row group and a column
group, a base for each column group and a total for each row group. Nothing comes of a look-up or a
change at a place that an array does not have.

* `modify?`, `addTo`, `read?`: arrays of sums;
* `Sums`, `Sums.cell?`, `Sums.isSeen?`: the sums, and the classes that somebody has been counted for;
* `Sums.addAt?`, `Sums.count?`, `sums?`: a weight added at a row and a column, at all of a respondent, and
  those of all respondents;
* `IsRow`, `IsColumn`: the lines of the classes that there are, with the base row and the total column;
* `Holds`: the arrays hold at these what a tally holds;
* `holds_start`, **`Holds.addAt`**, **`Holds.count`**: nobody is counted yet, one more weight and one more
  respondent keep this;
* **`exists_sums?`**: so it holds of all respondents, and no look-up fails.
-/

namespace SurveyTables.Tabulation

/-! ## Arrays of sums -/

section Arrays

variable {α κ : Type} [BEq κ] [Hashable κ]

/-- The array with the element at the place changed, which has to be there. -/
def modify? {β : Type} (xs : Array β) (i : Nat) (f : β → β) : Option (Array β) :=
  if i < xs.size then some (xs.modify i f) else none

/-- A weight added to the sum with the key. -/
def addTo [Zero α] [Add α] (w : α) (key : κ) (sums : Std.HashMap κ α) : Std.HashMap κ α :=
  sums.insert key (sums.getD key 0 + w)

/-- The sum with the key at the place, if there is one. The place has to be there. -/
def read? (xs : Array (Std.HashMap κ α)) (i : Nat) (key : κ) : Option (Option α) :=
  xs[i]?.map fun sums => sums[key]?

theorem lt_size_of_read? {xs : Array (Std.HashMap κ α)} {i : Nat} {key : κ} {x : Option α}
    (h : read? xs i key = some x) : i < xs.size := by
  obtain ⟨sums, hsums, -⟩ := Option.map_eq_some_iff.mp h
  exact (Array.getElem?_eq_some_iff.mp hsums).1

variable [Zero α] [Add α] [LawfulBEq κ] [DecidableEq κ]

theorem getElem?_addTo (w : α) (key key' : κ) (sums : Std.HashMap κ α) :
    (addTo w key sums)[key']? =
      if key = key' then some (sums[key']?.getD 0 + w) else sums[key']? := by
  rw [addTo, Std.HashMap.getElem?_insert, Std.HashMap.getD_eq_getD_getElem?]
  by_cases h : key = key'
  · simp [h]
  · simp [h]

theorem read?_modify (xs : Array (Std.HashMap κ α)) (w : α) (i i' : Nat) (key key' : κ) :
    read? (xs.modify i (addTo w key)) i' key' =
      if i = i' ∧ key = key' then (read? xs i' key').map fun x => some (x.getD 0 + w)
      else read? xs i' key' := by
  unfold read?
  rw [Array.getElem?_modify]
  by_cases hi : i = i'
  · rw [if_pos hi]
    cases xs[i']? with
    | none => simp
    | some sums =>
      simp only [Option.map_some, getElem?_addTo, hi, true_and]
      split <;> rfl
  · rw [if_neg hi, if_neg fun h => hi h.1]

end Arrays

/-! ## Sums -/

/-- The sums of a table. -/
structure Sums (α : Type) where
  /-- For each row group and each column group: the sums of their classes. -/
  subTables : Array (Std.HashMap (Nat × Nat) α)
  /-- For each column group: the sums of its classes. -/
  bases : Array (Std.HashMap Nat α)
  /-- For each row group: the sums of its classes. -/
  totals : Array (Std.HashMap Nat α)
  /-- The sum of all. -/
  all : α
  /-- For each row group: whether somebody has been counted for its classes. -/
  seen : Array (Array Bool)

namespace Sums

variable {α : Type}

/-- The sum of a row and a column, where there are `n` column groups. -/
def cell? (n : Nat) (s : Sums α) : Line → Line → Option (Option α)
  | .base, .total => some (some s.all)
  | .base, .data j b => read? s.bases j b
  | .data i a, .total => read? s.totals i a
  | .data i a, .data j b => read? s.subTables (i * n + j) (a, b)
  | _, _ => some none

/-- Somebody has been counted for the class of a row group. -/
def isSeen? (s : Sums α) (i a : Nat) : Option Bool :=
  s.seen[i]?.bind fun marks => marks[a]?

/-- Somebody is counted for the row. -/
def see? (s : Sums α) : Line → Option (Sums α)
  | .data i a => do
    let _ ← s.isSeen? i a
    return { s with seen := s.seen.modify i fun marks => marks.modify a fun _ => true }
  | _ => some s

variable [Zero α] [Add α]

/-- A weight added to the sum of a row and a column. -/
def addCell? (n : Nat) (w : α) (s : Sums α) : Line → Line → Option (Sums α)
  | .base, .total => some { s with all := s.all + w }
  | .base, .data j b => (modify? s.bases j (addTo w b)).map fun bases => { s with bases }
  | .data i a, .total => (modify? s.totals i (addTo w a)).map fun totals => { s with totals }
  | .data i a, .data j b =>
    (modify? s.subTables (i * n + j) (addTo w (a, b))).map fun subTables => { s with subTables }
  | _, _ => some s

/-- A weight counted at a row and a column. -/
def addAt? (n : Nat) (w : α) (s : Sums α) (place : Line × Line) : Option (Sums α) := do
  (← s.addCell? n w place.1 place.2).see? place.1

/-- Nobody is counted. -/
def start (rows columns : List GroupKeys) : Sums α where
  subTables := Array.replicate (rows.length * columns.length) ∅
  bases := Array.replicate columns.length ∅
  totals := Array.replicate rows.length ∅
  all := 0
  seen := (rows.map fun k => Array.replicate k.entries.size false).toArray

end Sums

/-! ## Lines that there are -/

/-- The line is the base row or that of a class of a row group. -/
inductive IsRow (groups : List GroupKeys) : Line → Prop where
  | base : IsRow groups .base
  | data {i a : Nat} {k : GroupKeys} :
    groups[i]? = some k → a < k.entries.size → IsRow groups (.data i a)

/-- The line is the total column or that of a class of a column group. -/
inductive IsColumn (groups : List GroupKeys) : Line → Prop where
  | total : IsColumn groups .total
  | data {j b : Nat} {k : GroupKeys} :
    groups[j]? = some k → b < k.entries.size → IsColumn groups (.data j b)

theorem lt_length_of_getElem? {β : Type} {xs : List β} {i : Nat} {x : β} (h : xs[i]? = some x) :
    i < xs.length :=
  (List.getElem?_eq_some_iff.mp h).1

theorem place_lt {m n i j : Nat} (hi : i < m) (hj : j < n) : i * n + j < m * n := by
  calc i * n + j < i * n + n := Nat.add_lt_add_left hj _
    _ = (i + 1) * n := (Nat.succ_mul i n).symm
    _ ≤ m * n := Nat.mul_le_mul_right n hi

theorem place_eq_iff {n j j' : Nat} (hj : j < n) (hj' : j' < n) (i i' : Nat) :
    i * n + j = i' * n + j' ↔ i = i' ∧ j = j' := by
  refine ⟨fun h => ?_, fun ⟨hi, hj⟩ => by rw [hi, hj]⟩
  have hmod : ∀ k l, l < n → (k * n + l) % n = l := by
    intro k l hl
    rw [Nat.add_comm, Nat.add_mul_mod_self_right, Nat.mod_eq_of_lt hl]
  have hsame : j = j' := by rw [← hmod i j hj, h, hmod i' j' hj']
  refine ⟨?_, hsame⟩
  rw [hsame] at h
  exact Nat.eq_of_mul_eq_mul_right (by omega) (Nat.add_right_cancel h)

/-! ## One weight more -/

section Step

variable {α : Type} [Zero α] [Add α] {rows columns : List GroupKeys} {row column : Line} {s : Sums α}

/-- A weight is added to the sum of the row and the column, and to no other. -/
theorem exists_addCell? (w : α) (hrow : IsRow rows row) (hcolumn : IsColumn columns column)
    {x : Option α} (hcell : s.cell? columns.length row column = some x) :
    ∃ s', s.addCell? columns.length w row column = some s' ∧ s'.seen = s.seen ∧
      ∀ row' column', IsRow rows row' → IsColumn columns column' →
        s'.cell? columns.length row' column' =
          if row = row' ∧ column = column' then
            (s.cell? columns.length row' column').map fun x => some (x.getD 0 + w)
          else s.cell? columns.length row' column' := by
  cases hrow with
  | base =>
    cases hcolumn with
    | total =>
      refine ⟨_, rfl, rfl, fun row' column' hrow' hcolumn' => ?_⟩
      cases hrow' <;> cases hcolumn' <;> simp [Sums.cell?]
    | data hj hb =>
      refine ⟨_, congrArg (Option.map _) (if_pos (lt_size_of_read? hcell)), rfl,
        fun row' column' hrow' hcolumn' => ?_⟩
      cases hrow' <;> cases hcolumn' <;> simp [Sums.cell?, read?_modify]
  | data hi ha =>
    cases hcolumn with
    | total =>
      refine ⟨_, congrArg (Option.map _) (if_pos (lt_size_of_read? hcell)), rfl,
        fun row' column' hrow' hcolumn' => ?_⟩
      cases hrow' <;> cases hcolumn' <;> simp [Sums.cell?, read?_modify]
    | data hj hb =>
      refine ⟨_, congrArg (Option.map _) (if_pos (lt_size_of_read? hcell)), rfl,
        fun row' column' hrow' hcolumn' => ?_⟩
      cases hrow' with
      | base => cases hcolumn' <;> simp [Sums.cell?]
      | data hi' ha' =>
        cases hcolumn' with
        | total => simp [Sums.cell?]
        | data hj' hb' =>
          have hplace := place_eq_iff (lt_length_of_getElem? hj) (lt_length_of_getElem? hj')
          simp only [Sums.cell?, read?_modify, hplace, Prod.mk.injEq, Line.data.injEq]
          simp only [and_assoc, and_left_comm]

omit [Zero α] [Add α] in
theorem exists_see? (hrow : IsRow rows row)
    (hseen : ∀ i a, row = .data i a → ∃ b, s.isSeen? i a = some b) :
    ∃ s', s.see? row = some s' ∧
      (∀ n row' column', s'.cell? n row' column' = s.cell? n row' column') ∧
      ∀ i a, s'.isSeen? i a = if row = .data i a then some true else s.isSeen? i a := by
  cases hrow with
  | base => exact ⟨s, rfl, fun _ _ _ => rfl, fun _ _ => rfl⟩
  | @data i a k hi ha =>
    obtain ⟨b, hb⟩ := hseen i a rfl
    have hsee : s.see? (.data i a) =
        some { s with seen := s.seen.modify i fun marks => marks.modify a fun _ => true } := by
      rw [Sums.see?, hb]
      rfl
    refine ⟨_, hsee, fun n row' column' => ?_, fun i' a' => ?_⟩
    · cases row' <;> cases column' <;> rfl
    · obtain ⟨marks, hmarks, hmark⟩ := Option.bind_eq_some_iff.mp hb
      rw [Sums.isSeen?, Sums.isSeen?, Array.getElem?_modify]
      by_cases hi' : i = i'
      · subst hi'
        by_cases ha' : a = a'
        · subst ha'
          simp [hmarks, Array.getElem?_modify, hmark]
        · simp [hmarks, Array.getElem?_modify, ha']
      · simp [hi']

/-- The arrays hold at the lines that there are what the tally holds, and somebody has been counted for the
class of a row group just if the tally has an entry for it. -/
structure Holds (rows columns : List GroupKeys) (s : Sums α) (t : Tally α) : Prop where
  cell?_eq : ∀ row column, IsRow rows row → IsColumn columns column →
    s.cell? columns.length row column = some t[(row, column)]?
  isSeen?_eq : ∀ i a, IsRow rows (.data i a) → ∃ b, s.isSeen? i a = some b ∧
    (b = true ↔ ∃ column, t.contains (.data i a, column) = true)

omit [Add α] in
theorem holds_start : Holds rows columns (Sums.start rows columns : Sums α) Tally.start where
  cell?_eq row column hrow hcolumn := by
    rw [Tally.getElem?_start]
    cases hrow with
    | base =>
      cases hcolumn with
      | total => rfl
      | data hj hb => simp [Sums.cell?, Sums.start, read?, lt_length_of_getElem? hj]
    | data hi ha =>
      cases hcolumn with
      | total => simp [Sums.cell?, Sums.start, read?, lt_length_of_getElem? hi]
      | data hj hb =>
        simp [Sums.cell?, Sums.start, read?,
          place_lt (lt_length_of_getElem? hi) (lt_length_of_getElem? hj)]
  isSeen?_eq i a h := by
    cases h with
    | data hi ha =>
      refine ⟨false, ?_, ?_⟩
      · simp [Sums.isSeen?, Sums.start, hi, ha]
      · simp [Tally.start]

theorem exists_contains_addAt_iff (w : α) (t : Tally α) (row column row' : Line) :
    (∃ column', (t.addAt w (row, column)).contains (row', column') = true) ↔
      row = row' ∨ ∃ column', t.contains (row', column') = true := by
  simp only [Tally.addAt, Std.HashMap.contains_insert, Bool.or_eq_true, beq_iff_eq, Prod.mk.injEq]
  constructor
  · rintro ⟨column', ⟨hrow, -⟩ | h⟩
    · exact .inl hrow
    · exact .inr ⟨column', h⟩
  · rintro (hrow | ⟨column', h⟩)
    · exact ⟨column, .inl ⟨hrow, rfl⟩⟩
    · exact ⟨column', .inr h⟩

/-- **A weight counted** at lines that there are is found in the arrays as in the tally. -/
theorem Holds.addAt {t : Tally α} (h : Holds rows columns s t) (hrow : IsRow rows row)
    (hcolumn : IsColumn columns column) (w : α) :
    ∃ s', s.addAt? columns.length w (row, column) = some s' ∧
      Holds rows columns s' (t.addAt w (row, column)) := by
  obtain ⟨s₁, hadd, hseen, hcells⟩ := exists_addCell? w hrow hcolumn (h.cell?_eq row column hrow hcolumn)
  have hseen₁ : ∀ i a, s₁.isSeen? i a = s.isSeen? i a := by
    intro i a
    rw [Sums.isSeen?, Sums.isSeen?, hseen]
  obtain ⟨s₂, hsee, hcells', hseen'⟩ := exists_see? hrow fun i a hline => by
    rw [hseen₁]
    obtain ⟨b, hb, -⟩ := h.isSeen?_eq i a (hline ▸ hrow)
    exact ⟨b, hb⟩
  refine ⟨s₂, ?_, ?_, ?_⟩
  · simp only [Sums.addAt?, hadd, bind, Option.bind_some, hsee]
  · intro row' column' hrow' hcolumn'
    rw [hcells', hcells row' column' hrow' hcolumn', h.cell?_eq row' column' hrow' hcolumn',
      Tally.getElem?_addAt, Option.map_some, ← apply_ite some]
    simp only [Prod.mk.injEq]
  · intro i a hia
    rw [hseen', hseen₁]
    obtain ⟨b, hb, hiff⟩ := h.isSeen?_eq i a hia
    simp only [exists_contains_addAt_iff]
    by_cases hline : row = .data i a
    · exact ⟨true, if_pos hline, by simp [hline]⟩
    · exact ⟨b, by rw [if_neg hline, hb], by simp [hline, hiff]⟩

/-- **Weights counted one after the other** at lines that there are. -/
theorem Holds.foldlM_addAt {t : Tally α} (h : Holds rows columns s t) (w : α)
    (places : List (Line × Line)) (hplaces : ∀ p ∈ places, IsRow rows p.1 ∧ IsColumn columns p.2) :
    ∃ s', places.foldlM (Sums.addAt? columns.length w) s = some s' ∧
      Holds rows columns s' (places.foldl (Tally.addAt w) t) := by
  induction places generalizing s t with
  | nil => exact ⟨s, rfl, h⟩
  | cons p places ih =>
    obtain ⟨hrow, hcolumn⟩ := hplaces p List.mem_cons_self
    obtain ⟨s₁, hadd, h₁⟩ := h.addAt hrow hcolumn w
    obtain ⟨s₂, hfold, h₂⟩ := ih h₁ fun p' hp' => hplaces p' (List.mem_cons_of_mem _ hp')
    exact ⟨s₂, by rw [List.foldlM_cons, hadd]; exact hfold, h₂⟩

end Step

/-! ## All respondents -/

/-- The line of the class that the respondent belongs to, if there is one. The mark of the respondent has
to be there, and the class that it tells. -/
def GroupKeys.line? (k : GroupKeys) (i respondent : Nat) : Option (Option Line) := do
  match ← k.marks[respondent]? with
  | none => return none
  | some a =>
    let _ ← k.entries.entries[a]?
    return some (.data i a)

/-- The lines of the classes that the respondent belongs to. -/
def dataLines? (groups : List GroupKeys) (respondent : Nat) : Option (List Line) := do
  let lines ← groups.zipIdx.mapM fun entry => entry.1.line? entry.2 respondent
  return lines.filterMap id

section Run

variable {α : Type} [Zero α] [Add α]

/-- The respondent is counted at all pairs of a row and a column. -/
def Sums.count? (columnTotal : Bool) (rows columns : List GroupKeys) (respondent : Nat) (w : α)
    (s : Sums α) : Option (Sums α) := do
  let rowLines := .base :: (← dataLines? rows respondent)
  let columnLines := (if columnTotal then [.total] else []) ++ (← dataLines? columns respondent)
  let places := rowLines.flatMap fun row => columnLines.map fun column => (row, column)
  places.foldlM (Sums.addAt? columns.length w) s

/-- The respondent is counted if there is a weight. -/
def Sums.countIf? (columnTotal : Bool) (rows columns : List GroupKeys) (s : Sums α)
    (entry : Option α × Nat) : Option (Sums α) :=
  match entry.1 with
  | some w => s.count? columnTotal rows columns entry.2 w
  | none => some s

/-- The sums of all respondents who have a weight. -/
def sums? (columnTotal : Bool) (rows columns : List GroupKeys) (weights : List (Option α)) :
    Option (Sums α) :=
  weights.zipIdx.foldlM (Sums.countIf? columnTotal rows columns) (Sums.start rows columns)

/-- Each of so many respondents has a mark, which tells a class if it tells any. -/
structure GroupKeys.Marks (k : GroupKeys) (count : Nat) : Prop where
  size_marks : k.marks.size = count
  lt_size : ∀ respondent a, k.mark? respondent = some a → a < k.entries.size

theorem GroupKeys.Marks.line?_eq {k : GroupKeys} {count respondent : Nat} (h : k.Marks count)
    (hlt : respondent < count) (i : Nat) :
    k.line? i respondent = some ((k.mark? respondent).map (Line.data i)) := by
  have hmark : k.marks[respondent]? = some (k.mark? respondent) := by
    rw [← h.size_marks] at hlt
    rw [mark?, Array.getElem?_eq_getElem hlt, Option.join_some]
  simp only [line?, hmark, bind, Option.bind_some]
  cases hclass : k.mark? respondent with
  | none => rfl
  | some a =>
    obtain ⟨e, he⟩ : ∃ e, k.entries.entries[a]? = some e :=
      ⟨_, Array.getElem?_eq_getElem (h.lt_size respondent a hclass)⟩
    simp only [he]
    rfl

theorem mapM_eq_some_map {β γ : Type} {f : β → Option γ} {g : β → γ} {bs : List β}
    (h : ∀ b ∈ bs, f b = some (g b)) : bs.mapM f = some (bs.map g) := by
  induction bs with
  | nil => rfl
  | cons b bs ih =>
    rw [List.mapM_cons, h b List.mem_cons_self, ih fun b' hb' => h b' (List.mem_cons_of_mem b hb')]
    rfl

theorem dataLines?_eq {groups : List GroupKeys} {count respondent : Nat}
    (h : ∀ k ∈ groups, k.Marks count) (hlt : respondent < count) :
    dataLines? groups respondent = some (dataLines groups respondent) := by
  have hline : ∀ entry ∈ groups.zipIdx, entry.1.line? entry.2 respondent =
      some ((entry.1.mark? respondent).map (Line.data entry.2)) := by
    intro entry hentry
    exact (h entry.1 (List.mem_of_getElem? (List.mem_zipIdx_iff_getElem?.mp hentry))).line?_eq hlt _
  simp only [dataLines?, mapM_eq_some_map hline, bind, Option.bind_some]
  rw [dataLines, List.filterMap_map]
  rfl

theorem isLine_of_mem_dataLines {groups : List GroupKeys} {count respondent : Nat} {line : Line}
    (h : ∀ k ∈ groups, k.Marks count) (hline : line ∈ dataLines groups respondent) :
    IsRow groups line ∧ IsColumn groups line := by
  obtain ⟨i, a, rfl⟩ := exists_of_mem_dataLines hline
  obtain ⟨k, hk, hmark⟩ := data_mem_dataLines.mp hline
  have hlt := (h k (List.mem_of_getElem? hk)).lt_size respondent a hmark
  exact ⟨.data hk hlt, .data hk hlt⟩

theorem isRow_of_mem_rowLines {groups : List GroupKeys} {count respondent : Nat} {line : Line}
    (h : ∀ k ∈ groups, k.Marks count) (hline : line ∈ rowLines groups respondent) :
    IsRow groups line := by
  rcases List.mem_cons.mp hline with rfl | hline
  · exact .base
  · exact (isLine_of_mem_dataLines h hline).1

theorem isColumn_of_mem_columnLines {groups : List GroupKeys} {columnTotal : Bool}
    {count respondent : Nat} {line : Line} (h : ∀ k ∈ groups, k.Marks count)
    (hline : line ∈ columnLines columnTotal groups respondent) : IsColumn groups line := by
  rcases List.mem_append.mp hline with hline | hline
  · split at hline
    · rw [List.mem_singleton.mp hline]
      exact .total
    · exact absurd hline List.not_mem_nil
  · exact (isLine_of_mem_dataLines h hline).2

variable {rows columns : List GroupKeys} {n : Nat} {s : Sums α} {t : Tally α}

/-- **A respondent counted** is found in the arrays as in the tally. -/
theorem Holds.count (h : Holds rows columns s t) (columnTotal : Bool) (hrows : ∀ k ∈ rows, k.Marks n)
    (hcolumns : ∀ k ∈ columns, k.Marks n) {respondent : Nat} (hlt : respondent < n) (w : α) :
    ∃ s', s.count? columnTotal rows columns respondent w = some s' ∧
      Holds rows columns s'
        (t.count (rowLines rows respondent) (columnLines columnTotal columns respondent) w) := by
  simp only [Sums.count?, dataLines?_eq hrows hlt, dataLines?_eq hcolumns hlt, bind, Option.bind_some]
  refine h.foldlM_addAt w _ fun p hp => ?_
  obtain ⟨hrow, hcolumn⟩ := Tally.mem_pairs.mp hp
  exact ⟨isRow_of_mem_rowLines hrows hrow, isColumn_of_mem_columnLines hcolumns hcolumn⟩

theorem Holds.foldlM_countIf (h : Holds rows columns s t) (columnTotal : Bool)
    (hrows : ∀ k ∈ rows, k.Marks n) (hcolumns : ∀ k ∈ columns, k.Marks n)
    (entries : List (Option α × Nat)) (hentries : ∀ entry ∈ entries, entry.2 < n) :
    ∃ s', entries.foldlM (Sums.countIf? columnTotal rows columns) s = some s' ∧
      Holds rows columns s' (entries.foldl (fun t entry =>
        match entry.1 with
        | some w => t.count (rowLines rows entry.2) (columnLines columnTotal columns entry.2) w
        | none => t) t) := by
  induction entries generalizing s t with
  | nil => exact ⟨s, rfl, h⟩
  | cons entry entries ih =>
    obtain ⟨weight, respondent⟩ := entry
    have hlt := hentries (weight, respondent) List.mem_cons_self
    have hrest := fun entry' hentry' => hentries entry' (List.mem_cons_of_mem _ hentry')
    cases weight with
    | none => exact ih h hrest
    | some w =>
      obtain ⟨s₁, hcount, h₁⟩ := h.count columnTotal hrows hcolumns hlt w
      obtain ⟨s₂, hfold, h₂⟩ := ih h₁ hrest
      have hstep : Sums.countIf? columnTotal rows columns s (some w, respondent) = some s₁ := hcount
      refine ⟨s₂, ?_, h₂⟩
      rw [List.foldlM_cons, hstep]
      exact hfold

/-- **All respondents counted** are found in the arrays as in the tally. No mark, class, group or pair of
groups is looked up that is not there. -/
theorem exists_sums? (columnTotal : Bool) (hrows : ∀ k ∈ rows, k.Marks n)
    (hcolumns : ∀ k ∈ columns, k.Marks n) {weights : List (Option α)} (hweights : weights.length = n) :
    ∃ s, sums? columnTotal rows columns weights = some s ∧
      Holds rows columns s (tally (rowLines rows) (columnLines columnTotal columns) weights) := by
  refine holds_start.foldlM_countIf columnTotal hrows hcolumns weights.zipIdx fun entry hentry => ?_
  rw [← hweights]
  exact lt_length_of_getElem? (List.mem_zipIdx_iff_getElem?.mp hentry)

end Run

end SurveyTables.Tabulation
