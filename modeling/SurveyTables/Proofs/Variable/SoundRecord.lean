import Mathlib.Data.List.DropRight
import Mathlib.Data.List.Forall2
import SurveyTables.Proofs.Variable.Record

/-!
# Sound records

A record is read field by field, by the names in an object or by the places in a list. It is accepted,
apart from its children, just if each of its fields is what it should be.

* `mapM_eq_ok_iff`, `mapM_eq_error_iff`: reading a list item by item;
* `Text.IsTrimmed`, `Text.isTrimmed_trimmed`: a text without blanks at its ends;
* `Record.given?`: what a document gives for a field; `Record.ofDocument?_of_isShaped`: all that is read
  of it;
* `Record.IsSound`, **`Record.exists_read_iff`**: the records that are accepted;
* `Record.IsFaulty`, `Record.IsFaulty.not_isSound`: some that are not.
-/

namespace SurveyTables

/-! ## Reading lists -/

section Lists

variable {ε α β : Type}

theorem mapM_eq_ok_iff {f : α → Except ε β} {as : List α} {bs : List β} :
    as.mapM f = .ok bs ↔ List.Forall₂ (fun a b => f a = .ok b) as bs := by
  induction as generalizing bs with
  | nil =>
    rw [List.forall₂_nil_left_iff]
    exact ⟨fun h => (Except.ok.inj h).symm, fun h => h ▸ rfl⟩
  | cons a as ih =>
    rw [List.mapM_cons, List.forall₂_cons_left_iff]
    constructor
    · intro h
      obtain ⟨b, hb, h⟩ := exists_of_bind_eq_ok h
      obtain ⟨bs', hbs, h⟩ := exists_of_bind_eq_ok h
      exact ⟨b, bs', hb, ih.mp hbs, (Except.ok.inj h).symm⟩
    · rintro ⟨b, bs', hb, hbs, rfl⟩
      rw [hb, ih.mpr hbs]
      rfl

theorem exists_forall₂_iff {r : α → β → Prop} {as : List α} :
    (∃ bs, List.Forall₂ r as bs) ↔ ∀ a ∈ as, ∃ b, r a b := by
  induction as with
  | nil => simp
  | cons a as ih =>
    simp only [List.forall₂_cons_left_iff, List.forall_mem_cons, ← ih]
    constructor
    · rintro ⟨-, b, bs, hb, hbs, rfl⟩
      exact ⟨⟨b, hb⟩, bs, hbs⟩
    · rintro ⟨⟨b, hb⟩, bs, hbs⟩
      exact ⟨_, b, bs, hb, hbs, rfl⟩

theorem exists_mapM_eq_ok_iff {f : α → Except ε β} {as : List α} :
    (∃ bs, as.mapM f = .ok bs) ↔ ∀ a ∈ as, ∃ b, f a = .ok b := by
  simp only [mapM_eq_ok_iff]
  exact exists_forall₂_iff

theorem mapM_eq_error_iff {f : α → Except ε β} {as : List α} {e : ε} :
    as.mapM f = .error e ↔ ∃ before a behind, as = before ++ a :: behind ∧
      (∀ b ∈ before, ∃ y, f b = .ok y) ∧ f a = .error e := by
  induction as with
  | nil => simp [pure, Except.pure]
  | cons a as ih =>
    rw [List.mapM_cons]
    cases ha : f a with
    | error e' =>
      constructor
      · intro h
        obtain rfl : e' = e := Except.error.inj h
        exact ⟨[], a, as, rfl, by simp, ha⟩
      · rintro ⟨before, a', behind, hsplit, hbefore, he⟩
        cases before with
        | nil =>
          obtain ⟨rfl, rfl⟩ := List.cons.inj hsplit
          exact congrArg Except.error (Except.error.inj (ha.symm.trans he))
        | cons b before =>
          obtain ⟨rfl, rfl⟩ := List.cons.inj hsplit
          obtain ⟨y, hy⟩ := hbefore a List.mem_cons_self
          exact absurd (ha.symm.trans hy) nofun
    | ok y =>
      have hrest : (do let ys ← as.mapM f; pure (y :: ys)) = Except.error e ↔
          as.mapM f = .error e := by
        cases as.mapM f with
        | error e' => exact Iff.rfl
        | ok ys => exact iff_of_false nofun nofun
      refine hrest.trans (ih.trans ⟨?_, ?_⟩)
      · rintro ⟨before, a', behind, rfl, hbefore, he⟩
        exact ⟨a :: before, a', behind, rfl, List.forall_mem_cons.mpr ⟨⟨y, ha⟩, hbefore⟩, he⟩
      · rintro ⟨before, a', behind, hsplit, hbefore, he⟩
        cases before with
        | nil =>
          obtain ⟨rfl, rfl⟩ := List.cons.inj hsplit
          exact absurd (ha.symm.trans he) nofun
        | cons b before =>
          obtain ⟨rfl, rfl⟩ := List.cons.inj hsplit
          exact ⟨before, a', behind, rfl, fun b hb => hbefore b (List.mem_cons_of_mem _ hb), he⟩

theorem exists_mapM_eq_some_iff {f : α → Option β} {as : List α} :
    (∃ bs, as.mapM f = some bs) ↔ ∀ a ∈ as, ∃ b, f a = some b := by
  induction as with
  | nil => simp
  | cons a as ih =>
    rw [List.forall_mem_cons, ← ih, List.mapM_cons]
    cases f a with
    | none => simp
    | some b => cases as.mapM f <;> simp

end Lists

/-! ## Trimmed texts -/

namespace Text

/-- The text is not empty and has no blank at either end. -/
structure IsTrimmed (s : String) : Prop where
  ne_empty : s ≠ ""
  head : ∀ c ∈ s.toList.head?, isBlank c = false
  last : ∀ c ∈ s.toList.getLast?, isBlank c = false

theorem toList_trimmed (s : String) :
    (trimmed s).toList = (s.toList.dropWhile isBlank).rdropWhile isBlank :=
  String.toList_ofList

theorem trimmed_eq_empty_iff {s : String} : trimmed s = "" ↔ ∀ c ∈ s.toList, isBlank c = true := by
  rw [← String.toList_eq_nil_iff, toList_trimmed, List.rdropWhile_eq_nil_iff]
  constructor
  · intro h
    -- the blanks in front are followed by something else
    have hnil : s.toList.dropWhile isBlank = [] := by
      cases hrest : s.toList.dropWhile isBlank with
      | nil => rfl
      | cons c cs =>
        have hfirst := List.head?_dropWhile_not isBlank s.toList
        rw [hrest] at hfirst h
        exact absurd (h c List.mem_cons_self) (by simpa using hfirst)
    exact List.dropWhile_eq_nil_iff.mp hnil
  · intro h c hc
    exact h c (List.dropWhile_subset _ hc)

theorem isTrimmed_trimmed {s : String} (h : trimmed s ≠ "") : IsTrimmed (trimmed s) where
  ne_empty := h
  head c hc := by
    rw [toList_trimmed] at hc
    obtain ⟨behind, hsplit⟩ := List.rdropWhile_prefix isBlank (s.toList.dropWhile isBlank)
    have hfirst := List.head?_dropWhile_not isBlank s.toList
    rw [← hsplit, List.head?_append, hc] at hfirst
    exact hfirst
  last c hc := by
    have hne : (trimmed s).toList ≠ [] := mt String.toList_eq_nil_iff.mp h
    rw [toList_trimmed] at hc hne
    rw [List.getLast?_eq_some_getLast hne] at hc
    obtain rfl := Option.some.inj hc
    exact eq_false_of_ne_true (List.rdropWhile_last_not isBlank _ hne)

end Text

/-! ## The fields of a record -/

namespace Record

open Document

/-- What a document gives for the field of a record: by its name in an object, by its place in a list. -/
def given? (d : Document) (name : String) : Option Document :=
  match d with
  | .object fields => fields.lookup name
  | .list items => items[names.idxOf name]?
  | _ => none

/-- The document is an object with no unknown fields, or a list with no more items than there are
fields. -/
inductive IsShaped : Document → Prop where
  | fields {fields : List (String × Document)} :
    (∀ field ∈ fields, field.1 ∈ names) → IsShaped (.object fields)
  | items {items : List Document} : items.length ≤ names.length → IsShaped (.list items)

/-- The record of what is given for its fields. -/
def ofGiven? (id valueType label values children questionType : Option Document) :
    Option Record := do
  let id ← required? text? id
  let valueType ← orElse? none (optional? text?) valueType
  let label ← orElse? "" text? label
  let values ← orElse? none (optional? RecordValues.ofDocument?) values
  let _ ← orElse? [] (listOf? some) children
  let questionType ← orElse? none (optional? text?) questionType
  return { id, valueType, label, values, questionType }

theorem hasKnownFields_iff {fields : List (String × Document)} :
    hasKnownFields (.object fields) = true ↔ ∀ field ∈ fields, field.1 ∈ names := by
  simp [hasKnownFields]

theorem fields?_list {items : List Document} (h : items.length ≤ names.length) :
    Document.fields? names (.list items) = some (names.map (given? (.list items))) := by
  match items, h with
  | [], _ | [_], _ | [_, _], _ | [_, _, _], _ | [_, _, _, _], _ | [_, _, _, _, _], _
  | [_, _, _, _, _, _], _ => rfl
  | _ :: _ :: _ :: _ :: _ :: _ :: _ :: rest, h =>
    have hshort : rest.length + 7 ≤ 6 := h
    omega

/-- **All that is read of a document** is what it gives for the fields. -/
theorem ofDocument?_of_isShaped {d : Document} (h : IsShaped d) : ofDocument? d =
    ofGiven? (given? d "id") (given? d "type") (given? d "label") (given? d "values")
      (given? d "children") (given? d "survey_type") := by
  cases h with
  | fields h =>
    rw [ofDocument?, hasKnownFields_iff.mpr h]
    rfl
  | items h =>
    rw [ofDocument?, fields?_list h]
    rfl

theorem ofDocument?_of_not_isShaped {d : Document} (h : ¬ IsShaped d) : ofDocument? d = none := by
  cases d with
  | object fields =>
    have hunknown : hasKnownFields (.object fields) = false :=
      eq_false_of_ne_true fun hknown => h (.fields (hasKnownFields_iff.mp hknown))
    rw [ofDocument?, hunknown]
    rfl
  | list items =>
    have hlong : ¬ items.length ≤ names.length := fun hle => h (.items hle)
    rw [ofDocument?, Document.fields?, if_neg hlong]
    rfl
  | _ => rfl

/-! ## Sound fields -/

/-- A text that may be absent. -/
inductive IsOptionalText : Document → Prop where
  | null : IsOptionalText .null
  | text (s : String) : IsOptionalText (.text s)

/-- A value code is a text, a number or a truth value. -/
inductive IsCode : Document → Prop where
  | text (s : String) : IsCode (.text s)
  | whole (n : Int) : IsCode (.whole n)
  | real (x : Float) : IsCode (.real x)
  | bool (b : Bool) : IsCode (.bool b)

/-- Value labels are absent, or pairs of a code and a text, or fields that are texts. -/
inductive GivesLabels : Document → Prop where
  | null : GivesLabels .null
  | pairs {items : List Document} :
    (∀ item ∈ items, ∃ code label, item = .list [code, .text label] ∧ IsCode code) →
    GivesLabels (.list items)
  | fields {fields : List (String × Document)} :
    (∀ field ∈ fields, ∃ label, field.2 = .text label) → GivesLabels (.object fields)

/-- Each field of the record is what it should be, whatever its children are. -/
structure IsSound (d : Document) : Prop where
  isShaped : IsShaped d
  id : ∃ s, given? d "id" = some (.text s) ∧ ∃ c ∈ s.toList, Text.isBlank c = false
  valueType : ∀ x, given? d "type" = some x → IsOptionalText x
  label : ∀ x, given? d "label" = some x → ∃ s, x = .text s
  values : ∀ x, given? d "values" = some x → GivesLabels x
  children : ∀ x, given? d "children" = some x → ∃ items, x = .list items
  questionType : ∀ x, given? d "survey_type" = some x → IsOptionalText x

/-- An unknown field, an id that is missing, no text or blank, or a value code that is none. -/
inductive IsFaulty : Document → Prop where
  | unknownField {fields : List (String × Document)} {field : String × Document} :
    field ∈ fields → field.1 ∉ names → IsFaulty (.object fields)
  | noId {d : Document} : (∀ s, given? d "id" ≠ some (.text s)) → IsFaulty d
  | blankId {d : Document} {s : String} :
    given? d "id" = some (.text s) → (∀ c ∈ s.toList, Text.isBlank c = true) → IsFaulty d
  | unsupportedCode {d : Document} {items : List Document} {code label : Document} :
    given? d "values" = some (.list items) → .list [code, label] ∈ items → ¬ IsCode code →
    IsFaulty d

theorem IsFaulty.not_isSound {d : Document} (h : IsFaulty d) : ¬ IsSound d := by
  intro hsound
  cases h with
  | unknownField hfield hunknown =>
    cases hsound.isShaped with
    | fields hknown => exact hunknown (hknown _ hfield)
  | noId hid =>
    obtain ⟨s, hs, -⟩ := hsound.id
    exact hid s hs
  | blankId hid hblank =>
    obtain ⟨s', hs', c, hc, hnot⟩ := hsound.id
    rw [hid] at hs'
    cases hs'
    rw [hblank c hc] at hnot
    contradiction
  | unsupportedCode hvalues hitem hcode =>
    cases hsound.values _ hvalues with
    | pairs hitems =>
      obtain ⟨code', label', heq, hcode'⟩ := hitems _ hitem
      cases heq
      exact hcode hcode'

/-! ## Reading the fields -/

theorem exists_orElse?_iff {α : Type} {absent : α} {read : Document → Option α}
    {x : Option Document} : (∃ a, orElse? absent read x = some a) ↔
      ∀ y, x = some y → ∃ a, read y = some a := by
  cases x <;> simp [orElse?]

theorem exists_text_iff {x : Option Document} :
    (∃ s, orElse? "" text? x = some s) ↔ ∀ y, x = some y → ∃ s, y = .text s := by
  have htext : ∀ y : Document, (∃ s, text? y = some s) ↔ ∃ s, y = .text s := by
    intro y
    cases y <;> simp [text?]
  simp only [exists_orElse?_iff, htext]

theorem exists_optional?_text?_iff {x : Document} :
    (∃ s, optional? text? x = some s) ↔ IsOptionalText x := by
  constructor
  · rintro ⟨s, hs⟩
    cases x with
    | null => exact .null
    | text s => exact .text s
    | _ => simp [optional?, text?] at hs
  · rintro (_ | s)
    · exact ⟨none, rfl⟩
    · exact ⟨some s, rfl⟩

theorem exists_optionalText_iff {x : Option Document} :
    (∃ s, orElse? none (optional? text?) x = some s) ↔ ∀ y, x = some y → IsOptionalText y := by
  simp only [exists_orElse?_iff, exists_optional?_text?_iff]

theorem required?_text?_iff {x : Option Document} {s : String} :
    required? text? x = some s ↔ x = some (.text s) := by
  cases x with
  | none => simp [required?]
  | some y => cases y <;> simp [required?, text?]

theorem mapM_some {α : Type} (as : List α) : as.mapM some = some as := by
  induction as with
  | nil => rfl
  | cons a as ih => rw [List.mapM_cons, ih]; rfl

theorem exists_list_iff {x : Option Document} : (∃ items, orElse? [] (listOf? some) x = some items) ↔
    ∀ y, x = some y → ∃ items, y = .list items := by
  have hlist : ∀ y : Document, (∃ items, listOf? some y = some items) ↔ ∃ items, y = .list items := by
    intro y
    cases y <;> simp [listOf?, mapM_some]
  simp only [exists_orElse?_iff, hlist]

/-! ## Value labels -/

theorem exists_codeText?_iff {code : Document} :
    (∃ s, RecordValues.codeText? code = some s) ↔ IsCode code := by
  constructor
  · rintro ⟨s, hs⟩
    cases code with
    | text s => exact .text s
    | whole n => exact .whole n
    | real x => exact .real x
    | bool b => exact .bool b
    | _ => simp [RecordValues.codeText?] at hs
  · rintro (_ | _ | _ | _) <;> exact ⟨_, rfl⟩

theorem exists_map_eq_ok_iff {ε α β : Type} {x : Except ε α} {f : α → β} :
    (∃ b, f <$> x = .ok b) ↔ ∃ a, x = .ok a := by
  constructor
  · rintro ⟨b, hb⟩
    obtain ⟨a, ha, -⟩ := exists_of_map_eq_ok hb
    exact ⟨a, ha⟩
  · rintro ⟨a, rfl⟩
    exact ⟨f a, rfl⟩

theorem exists_checkPair_iff {id : String} {item : Document × String} :
    (∃ pair, RecordValues.checkPair id item = .ok pair) ↔ IsCode item.1 := by
  obtain ⟨code, label⟩ := item
  rw [← exists_codeText?_iff, RecordValues.checkPair]
  cases RecordValues.codeText? code <;> simp

theorem exists_checkField_iff {id : String} {field : String × Document} :
    (∃ pair, RecordValues.checkField id field = .ok pair) ↔ ∃ label, field.2 = .text label := by
  obtain ⟨code, d⟩ := field
  cases d <;> simp [RecordValues.checkField]

theorem exists_check_pairs_iff {id : String} {items : List (Document × String)} :
    (∃ l, (RecordValues.pairs items).check id = .ok l) ↔ ∀ item ∈ items, IsCode item.1 := by
  rw [RecordValues.check, exists_map_eq_ok_iff, exists_mapM_eq_ok_iff]
  simp only [exists_checkPair_iff]

theorem exists_check_fields_iff {id : String} {fields : List (String × Document)} :
    (∃ l, (RecordValues.fields fields).check id = .ok l) ↔
      ∀ field ∈ fields, ∃ label, field.2 = .text label := by
  rw [RecordValues.check, exists_map_eq_ok_iff, exists_mapM_eq_ok_iff]
  simp only [exists_checkField_iff]

theorem pair?_eq_some_iff {d : Document} {code : Document} {label : String} :
    RecordValues.pair? d = some (code, label) ↔ d = .list [code, .text label] := by
  constructor
  · intro h
    rw [RecordValues.pair?.eq_def] at h
    split at h
    · cases h
      rfl
    · contradiction
  · rintro rfl
    rfl

theorem mapM_pair?_eq_some_iff {items : List Document} {pairs : List (Document × String)} :
    items.mapM RecordValues.pair? = some pairs ↔
      items = pairs.map fun pair => .list [pair.1, .text pair.2] := by
  constructor
  · intro h
    induction items generalizing pairs with
    | nil =>
      obtain rfl := Option.some.inj h
      rfl
    | cons item items ih =>
      rw [List.mapM_cons, Option.bind_eq_bind, Option.bind_eq_some_iff] at h
      obtain ⟨⟨code, label⟩, hitem, h⟩ := h
      obtain ⟨rest, hrest, h⟩ := Option.bind_eq_some_iff.mp h
      obtain rfl := Option.some.inj h
      rw [pair?_eq_some_iff.mp hitem, ih hrest, List.map_cons]
  · rintro rfl
    induction pairs with
    | nil => rfl
    | cons pair pairs ih =>
      rw [List.map_cons, List.mapM_cons, ih, pair?_eq_some_iff.mpr rfl]
      rfl

theorem givesLabels_list_iff {items : List Document} : GivesLabels (.list items) ↔
    ∃ pairs, items.mapM RecordValues.pair? = some pairs ∧ ∀ pair ∈ pairs, IsCode pair.1 := by
  constructor
  · intro h
    cases h with
    | pairs hitems =>
      obtain ⟨pairs, hpairs⟩ := exists_mapM_eq_some_iff.mpr fun item hitem => by
        obtain ⟨code, label, hpair, -⟩ := hitems item hitem
        exact ⟨_, pair?_eq_some_iff.mpr hpair⟩
      refine ⟨pairs, hpairs, fun pair hpair => ?_⟩
      obtain rfl := mapM_pair?_eq_some_iff.mp hpairs
      obtain ⟨code, label, heq, hcode⟩ := hitems _ (List.mem_map_of_mem hpair)
      cases heq
      exact hcode
  · rintro ⟨pairs, hpairs, hcodes⟩
    obtain rfl := mapM_pair?_eq_some_iff.mp hpairs
    refine .pairs fun item hitem => ?_
    obtain ⟨pair, hpair, rfl⟩ := List.mem_map.mp hitem
    exact ⟨pair.1, pair.2, rfl, hcodes pair hpair⟩

theorem givesLabels_object_iff {fields : List (String × Document)} :
    GivesLabels (.object fields) ↔ ∀ field ∈ fields, ∃ label, field.2 = .text label :=
  ⟨fun h => by cases h with | fields h => exact h, .fields⟩

theorem givesLabels_iff {x : Document} (id : String) : GivesLabels x ↔
    ∃ values, optional? RecordValues.ofDocument? x = some values ∧
      ∀ v, values = some v → ∃ l, v.check id = .ok l := by
  cases x with
  | null => exact iff_of_true .null ⟨none, rfl, nofun⟩
  | list items =>
    rw [givesLabels_list_iff]
    show _ ↔ ∃ values, (RecordValues.pairs <$> items.mapM RecordValues.pair?).map some =
      some values ∧ _
    cases items.mapM RecordValues.pair? with
    | none => simp
    | some pairs => simp [exists_check_pairs_iff]
  | object fields =>
    rw [givesLabels_object_iff]
    simp [optional?, RecordValues.ofDocument?, exists_check_fields_iff]
  | _ => exact iff_of_false nofun (by simp [optional?, RecordValues.ofDocument?])

theorem exists_labels_iff (id : String) {x : Option Document} :
    (∃ values, orElse? none (optional? RecordValues.ofDocument?) x = some values ∧
      ∀ v, values = some v → ∃ l, v.check id = .ok l) ↔ ∀ y, x = some y → GivesLabels y := by
  cases x with
  | none => exact iff_of_true ⟨none, rfl, nofun⟩ nofun
  | some y =>
    simp only [Option.some.injEq, forall_eq']
    exact (givesLabels_iff id).symm

/-! ## Sound records -/

theorem ofGiven?_eq_some_iff {id valueType label values children questionType : Option Document}
    {r : Record} : ofGiven? id valueType label values children questionType = some r ↔
      required? text? id = some r.id ∧
      orElse? none (optional? text?) valueType = some r.valueType ∧
      orElse? "" text? label = some r.label ∧
      orElse? none (optional? RecordValues.ofDocument?) values = some r.values ∧
      (∃ items, orElse? [] (listOf? some) children = some items) ∧
      orElse? none (optional? text?) questionType = some r.questionType := by
  obtain ⟨id', valueType', label', values', questionType'⟩ := r
  simp [ofGiven?, Option.bind_eq_some_iff]

/-- The value labels that a record gives, none if it gives none. -/
def checkedLabels (id : String) : Option RecordValues → Except RecordError Labels
  | some values => values.check id
  | none => .ok .empty

/-- The variable of a record with the value labels. -/
def toVariable (r : Record) (values : Labels) : Variable where
  id := Text.trimmed r.id
  valueType := r.valueType
  label := r.label
  values := values
  questionType := r.questionType

theorem check_eq (r : Record) : r.check = if Text.trimmed r.id = "" then .error .emptyId
    else r.toVariable <$> checkedLabels (Text.trimmed r.id) r.values := by
  rw [check]
  by_cases h : Text.trimmed r.id = ""
  · rw [if_pos h, h]
    rfl
  · have hid : ¬ (Text.trimmed r.id).isEmpty = true := mt String.isEmpty_iff.mp h
    simp only [if_neg hid, if_neg h]
    cases r.values <;> rfl

/-- A record that is read is accepted if its id is not blank and its value labels are. -/
theorem exists_check_iff {r : Record} : (∃ v, r.check = .ok v) ↔
    Text.trimmed r.id ≠ "" ∧ ∀ values, r.values = some values →
      ∃ l, values.check (Text.trimmed r.id) = .ok l := by
  rw [check_eq]
  by_cases h : Text.trimmed r.id = ""
  · rw [if_pos h]
    exact iff_of_false nofun fun hne => hne.1 h
  · rw [if_neg h, exists_map_eq_ok_iff, and_iff_right h]
    cases r.values <;> simp [checkedLabels]

theorem exists_nonblank_iff {s : String} :
    (∃ c ∈ s.toList, Text.isBlank c = false) ↔ Text.trimmed s ≠ "" := by
  rw [ne_eq, Text.trimmed_eq_empty_iff]
  simp

/-- **A document is accepted as a record, apart from its children, just if it is sound.** -/
theorem exists_read_iff {d : Document} : (∃ v, read d = .ok v) ↔ IsSound d := by
  constructor
  · rintro ⟨v, hv⟩
    have hshaped : IsShaped d := by
      by_contra hnot
      rw [read, ofDocument?_of_not_isShaped hnot] at hv
      contradiction
    rw [read, ofDocument?_of_isShaped hshaped] at hv
    split at hv
    · next r hr =>
      obtain ⟨hid, htype, hlabel, hvalues, hchildren, hquestion⟩ := ofGiven?_eq_some_iff.mp hr
      obtain ⟨hnonblank, hcheck⟩ := exists_check_iff.mp ⟨v, hv⟩
      exact {
        isShaped := hshaped
        id := ⟨r.id, required?_text?_iff.mp hid, exists_nonblank_iff.mpr hnonblank⟩
        valueType := exists_optionalText_iff.mp ⟨_, htype⟩
        label := exists_text_iff.mp ⟨_, hlabel⟩
        values := (exists_labels_iff (Text.trimmed r.id)).mp ⟨_, hvalues, hcheck⟩
        children := exists_list_iff.mp hchildren
        questionType := exists_optionalText_iff.mp ⟨_, hquestion⟩ }
    · contradiction
  · intro h
    obtain ⟨id, hid, hnonblank⟩ := h.id
    obtain ⟨valueType, htype⟩ := exists_optionalText_iff.mpr h.valueType
    obtain ⟨label, hlabel⟩ := exists_text_iff.mpr h.label
    obtain ⟨values, hvalues, hcheck⟩ := (exists_labels_iff (Text.trimmed id)).mpr h.values
    obtain ⟨questionType, hquestion⟩ := exists_optionalText_iff.mpr h.questionType
    have hr : ofDocument? d = some { id, valueType, label, values, questionType } := by
      rw [ofDocument?_of_isShaped h.isShaped]
      exact ofGiven?_eq_some_iff.mpr ⟨required?_text?_iff.mpr hid, htype, hlabel, hvalues,
        exists_list_iff.mpr h.children, hquestion⟩
    rw [read, hr]
    exact exists_check_iff.mpr ⟨exists_nonblank_iff.mp hnonblank, hcheck⟩

theorem isTrimmed_id_of_read {d : Document} {v : Variable} (h : read d = .ok v) :
    Text.IsTrimmed v.id := by
  rw [read] at h
  split at h
  · next r hr =>
    rw [check_eq] at h
    split at h
    · contradiction
    · next hid =>
      obtain ⟨values, -, rfl⟩ := exists_of_map_eq_ok h
      exact Text.isTrimmed_trimmed hid
  · contradiction

end Record

end SurveyTables
