import SurveyTables.Proofs.Variable.SoundRecord
import SurveyTables.Questionnaire.Basic

/-!
# Trees of records

The record of a variable has the records of its children, and these have those of theirs. It is read just
if all records of the tree are sound.

* `Record.children`, `Record.Within`, `Record.induction`: the tree of records, and induction on it;
* **`Variable.ofRecord_eq`**: a record is read by itself, and then its children;
* **`Variable.exists_ofRecord_iff`**: it is read just if all records within it are sound;
* `Variable.Within`, `Variable.IsClean`, `Variable.isClean_of_within`: what is read is clean throughout;
* `Record.Replaces`, `Replaces.read_eq`: another value for a field;
* `Record.ListsLabels`, **`Variable.ofRecord_eq_of_listsLabels`**: labels as fields or as pairs are the
  same;
* `Variable.ReadsTree`, `Questionnaire.ReadsAll`, **`Questionnaire.records_readTrees`**: all of this.
-/

namespace SurveyTables

namespace Record

/-- The records of the children that a record gives. -/
def children (d : Document) : List Document :=
  match given? d "children" with
  | some (.list items) => items
  | _ => []

/-- The first document is the second or, at any depth, the record of a child in it. -/
inductive Within : Document → Document → Prop where
  | refl (d : Document) : Within d d
  | child {e c d : Document} : c ∈ children d → Within e c → Within e d

theorem sizeOf_lt_of_given? {d x : Document} {name : String} (h : given? d name = some x) :
    sizeOf x < sizeOf d := by
  cases d with
  | object fields =>
    have hmem : (name, x) ∈ fields := by
      obtain ⟨before, behind, rfl, -⟩ := List.lookup_eq_some_iff.mp h
      exact List.mem_append_right _ List.mem_cons_self
    have hlt := List.sizeOf_lt_of_mem hmem
    simp only [Prod.mk.sizeOf_spec, Document.object.sizeOf_spec] at hlt ⊢
    omega
  | list items =>
    have hlt := List.sizeOf_lt_of_mem (List.mem_of_getElem? h)
    simp only [Document.list.sizeOf_spec]
    omega
  | _ => contradiction

theorem sizeOf_lt_of_mem_children {d c : Document} (h : c ∈ children d) : sizeOf c < sizeOf d := by
  rw [children] at h
  split at h
  · next items hitems =>
    have hlist := sizeOf_lt_of_given? hitems
    have hitem := List.sizeOf_lt_of_mem h
    rw [Document.list.sizeOf_spec] at hlist
    omega
  · contradiction

theorem induction {motive : Document → Prop}
    (step : ∀ d, (∀ c ∈ children d, motive c) → motive d) (d : Document) : motive d :=
  step d fun c _ => induction step c
termination_by sizeOf d
decreasing_by exact sizeOf_lt_of_mem_children ‹_›

end Record

/-! ## Reading a tree -/

namespace Variable

theorem ofRecords_eq_mapM (ds : List Document) : ofRecords ds = ds.mapM ofRecord := by
  induction ds with
  | nil => rw [ofRecords]; rfl
  | cons d ds ih => rw [ofRecords, ih, List.mapM_cons]

theorem childrenOfRecord_of_ne {name : String} (hname : name ≠ "children") (d : Document)
    (fields : List (String × Document)) :
    childrenOfRecord ((name, d) :: fields) = childrenOfRecord fields := by
  cases d <;> rw [childrenOfRecord] <;> simp [hname]

theorem childrenOfRecord_children (items : List Document) (fields : List (String × Document)) :
    childrenOfRecord (("children", .list items) :: fields) = ofRecords items := by
  rw [childrenOfRecord, if_pos rfl]

theorem childrenOfRecord_eq {fields : List (String × Document)}
    (h : ∀ x, Record.given? (.object fields) "children" = some x → ∃ items, x = .list items) :
    childrenOfRecord fields = ofRecords (Record.children (.object fields)) := by
  induction fields with
  | nil => rw [childrenOfRecord]; rfl
  | cons field fields ih =>
    obtain ⟨name, d⟩ := field
    by_cases hname : name = "children"
    · subst hname
      obtain ⟨items, rfl⟩ := h d rfl
      rw [childrenOfRecord_children]
      rfl
    · have hgiven : Record.given? (.object ((name, d) :: fields)) "children" =
          Record.given? (.object fields) "children" := by
        rw [Record.given?, List.lookup_cons, beq_eq_false_iff_ne.mpr (Ne.symm hname), Record.given?]
      rw [childrenOfRecord_of_ne hname, ih (hgiven ▸ h), Record.children, Record.children, hgiven]

/-- **A record is read by itself, and then its children.** -/
theorem ofRecord_eq (d : Document) : ofRecord d = do
    let v ← Record.read d
    let children ← ofRecords (Record.children d)
    return { v with children } := by
  cases d with
  | object fields =>
    rw [ofRecord]
    cases hread : Record.read (.object fields) with
    | error e => rfl
    | ok w => rw [childrenOfRecord_eq (Record.exists_read_iff.mp ⟨w, hread⟩).children]
  | list items =>
    rw [ofRecord]
    cases hread : Record.read (.list items) with
    | error e => rfl
    | ok w =>
      -- the children are the fifth item
      have hchildren := (Record.exists_read_iff.mp ⟨w, hread⟩).children
      rcases items with _ | ⟨_, _ | ⟨_, _ | ⟨_, _ | ⟨_, _ | ⟨x, _⟩⟩⟩⟩⟩
      case cons.cons.cons.cons.cons =>
        obtain ⟨children, rfl⟩ := hchildren x rfl
        rfl
      all_goals rfl
  | _ => rfl

theorem ofRecord_eq_ok_iff {d : Document} {v : Variable} : ofRecord d = .ok v ↔
    ∃ w, Record.read d = .ok w ∧ ofRecords (Record.children d) = .ok v.children ∧
      v = { w with children := v.children } := by
  rw [ofRecord_eq]
  constructor
  · intro h
    obtain ⟨w, hw, h⟩ := exists_of_bind_eq_ok h
    obtain ⟨children, hchildren, h⟩ := exists_of_bind_eq_ok h
    obtain rfl := Except.ok.inj h
    exact ⟨w, hw, hchildren, rfl⟩
  · rintro ⟨w, hw, hchildren, hv⟩
    rw [hw, hchildren]
    exact congrArg Except.ok hv.symm

theorem forall₂_children {d : Document} {v : Variable} (h : ofRecord d = .ok v) :
    List.Forall₂ (fun c w => ofRecord c = .ok w) (Record.children d) v.children := by
  obtain ⟨-, -, hchildren, -⟩ := ofRecord_eq_ok_iff.mp h
  rwa [ofRecords_eq_mapM, mapM_eq_ok_iff] at hchildren

theorem exists_ofRecord_iff_children {d : Document} : (∃ v, ofRecord d = .ok v) ↔
    Record.IsSound d ∧ ∀ c ∈ Record.children d, ∃ v, ofRecord c = .ok v := by
  rw [← Record.exists_read_iff, ← exists_mapM_eq_ok_iff, ← ofRecords_eq_mapM]
  constructor
  · rintro ⟨v, hv⟩
    obtain ⟨w, hw, hchildren, -⟩ := ofRecord_eq_ok_iff.mp hv
    exact ⟨⟨w, hw⟩, v.children, hchildren⟩
  · rintro ⟨⟨w, hw⟩, children, hchildren⟩
    exact ⟨{ w with children }, ofRecord_eq_ok_iff.mpr ⟨w, hw, hchildren, rfl⟩⟩

/-- **A record is read just if all records within it are sound.** -/
theorem exists_ofRecord_iff (d : Document) : (∃ v, ofRecord d = .ok v) ↔
    ∀ e, Record.Within e d → Record.IsSound e := by
  induction d using Record.induction with
  | step d ih =>
    rw [exists_ofRecord_iff_children]
    constructor
    · rintro ⟨hsound, hchildren⟩ e he
      cases he with
      | refl => exact hsound
      | child hc he => exact (ih _ hc).mp (hchildren _ hc) e he
    · intro h
      refine ⟨h d (.refl d), fun c hc => (ih c hc).mpr fun e he => h e (.child hc he)⟩

/-! ## What is read -/

/-- The first variable is the second or, at any depth, a child in it. -/
inductive Within : Variable → Variable → Prop where
  | refl (v : Variable) : Within v v
  | child {u w v : Variable} : w ∈ v.children → Within u w → Within u v

/-- The id is not empty and has no blank at either end, and no value code stands twice. -/
structure IsClean (v : Variable) : Prop where
  id : Text.IsTrimmed v.id
  codes : v.values.codes.Nodup

theorem isClean_of_ofRecord {d : Document} {v : Variable} (h : ofRecord d = .ok v) : v.IsClean := by
  obtain ⟨w, hw, -, hv⟩ := ofRecord_eq_ok_iff.mp h
  have hid := Record.isTrimmed_id_of_read hw
  have hcodes := (Record.id_values_of_read hw).2.nodup
  rw [hv]
  exact ⟨hid, hcodes⟩

theorem isClean_of_within {u v : Variable} (hu : Within u v) {d : Document}
    (h : ofRecord d = .ok v) : u.IsClean := by
  induction hu generalizing d with
  | refl => exact isClean_of_ofRecord h
  | child hw _ ih =>
    obtain ⟨-, -, hchildren, -⟩ := ofRecord_eq_ok_iff.mp h
    obtain ⟨c, -, hc⟩ := exists_record_of_mem_records hchildren _ hw
    exact ih hc

end Variable

/-! ## Labels as fields or as pairs -/

namespace Record

open Document

/-- Value labels as an object with a field for each code. -/
def labelFields (labels : List (String × String)) : Document :=
  .object (labels.map fun entry => (entry.1, .text entry.2))

/-- Value labels as a list with a pair for each code. -/
def labelPairs (labels : List (String × String)) : Document :=
  .list (labels.map fun entry => .list [.text entry.1, .text entry.2])

/-- The second document is the first with another value in one place: that of a field, by its name in an
object or by its place in a list. -/
inductive Replaces (name : String) (x y : Document) : Document → Document → Prop where
  | field (before behind : List (String × Document)) :
    Replaces name x y (.object (before ++ (name, x) :: behind)) (.object (before ++ (name, y) :: behind))
  | item {before : List Document} (behind : List Document) :
    before.length = names.idxOf name →
    Replaces name x y (.list (before ++ x :: behind)) (.list (before ++ y :: behind))

/-- The second document is the first with the value labels of one record, at any depth, as pairs and not
as an object. -/
inductive ListsLabels : Document → Document → Prop where
  | labels {labels : List (String × String)} {d d' : Document} :
    Replaces "values" (labelFields labels) (labelPairs labels) d d' → ListsLabels d d'
  | child {before behind : List Document} {c c' d d' : Document} : ListsLabels c c' →
    Replaces "children" (.list (before ++ c :: behind)) (.list (before ++ c' :: behind)) d d' →
    ListsLabels d d'

variable {name : String} {x y d d' : Document}

theorem Replaces.isShaped_iff (h : Replaces name x y d d') : IsShaped d ↔ IsShaped d' := by
  cases h with
  | field before behind =>
    constructor <;>
    · intro h
      cases h with
      | fields h => exact .fields (by simpa [or_imp, forall_and] using h)
  | item behind hplace =>
    constructor <;>
    · intro h
      cases h with
      | items h => exact .items (by simpa using h)

theorem given?_field (before behind : List (String × Document)) (name other : String)
    (x : Document) : given? (.object (before ++ (name, x) :: behind)) other =
      (before.lookup other).or (if other = name then some x else behind.lookup other) := by
  rw [given?, List.lookup_append, List.lookup_cons]
  by_cases h : other = name
  · rw [if_pos h, beq_iff_eq.mpr h]
  · rw [if_neg h, beq_eq_false_iff_ne.mpr h]

theorem Replaces.given?_eq (h : Replaces name x y d d') {other : String} (hmem : other ∈ names)
    (hother : other ≠ name) : given? d other = given? d' other := by
  cases h with
  | field before behind => rw [given?_field, given?_field, if_neg hother, if_neg hother]
  | @item before behind hplace =>
    have hset : before ++ y :: behind = (before ++ x :: behind).set before.length y := by simp
    have hne : before.length ≠ names.idxOf other := by
      rw [hplace]
      exact fun h => hother ((List.idxOf_inj hmem).mp h.symm)
    rw [given?, given?, hset, List.getElem?_set_ne hne]

/-- Where a field stands twice, only the first counts. -/
theorem Replaces.given?_cases (h : Replaces name x y d d') :
    given? d name = given? d' name ∨ given? d name = some x ∧ given? d' name = some y := by
  cases h with
  | field before behind =>
    rw [given?_field, given?_field, if_pos rfl, if_pos rfl]
    cases before.lookup name with
    | none => exact .inr ⟨rfl, rfl⟩
    | some z => exact .inl rfl
  | item behind hplace =>
    right
    simp [given?, ← hplace]

/-- What is read of the fields, and then checked. -/
def readGiven (given : String → Option Document) : Except RecordError Variable :=
  match ofGiven? (given "id") (given "type") (given "label") (given "values") (given "children")
    (given "survey_type") with
  | some r => r.check
  | none => .error .malformed

theorem readGiven_congr {given given' : String → Option Document}
    (h : ∀ name ∈ names, given name = given' name) : readGiven given = readGiven given' := by
  rw [readGiven, readGiven, h "id" (by decide), h "type" (by decide), h "label" (by decide),
    h "values" (by decide), h "children" (by decide), h "survey_type" (by decide)]

theorem read_of_isShaped (h : IsShaped d) : read d = readGiven (given? d) := by
  rw [read, ofDocument?_of_isShaped h]
  rfl

theorem read_of_not_isShaped (h : ¬ IsShaped d) : read d = .error .malformed := by
  rw [read, ofDocument?_of_not_isShaped h]

theorem Replaces.read_eq (h : Replaces name x y d d')
    (hsame : ∀ given, readGiven (Function.update given name (some x)) =
      readGiven (Function.update given name (some y))) : read d = read d' := by
  by_cases hshaped : IsShaped d
  · rw [read_of_isShaped hshaped, read_of_isShaped (h.isShaped_iff.mp hshaped)]
    rcases h.given?_cases with hcovered | ⟨hx, hy⟩
    · refine readGiven_congr fun other hmem => ?_
      by_cases hother : other = name
      · rw [hother, hcovered]
      · exact h.given?_eq hmem hother
    · have hbefore : Function.update (given? d) name (some x) = given? d := by
        rw [← hx, Function.update_eq_self]
      have hafter : readGiven (Function.update (given? d) name (some y)) = readGiven (given? d') := by
        refine readGiven_congr fun other hmem => ?_
        by_cases hother : other = name
        · rw [hother, hy, Function.update_self]
        · rw [Function.update_of_ne hother, h.given?_eq hmem hother]
      have hread := hsame (given? d)
      rwa [hbefore, hafter] at hread
  · rw [read_of_not_isShaped hshaped, read_of_not_isShaped (mt h.isShaped_iff.mpr hshaped)]

variable {id valueType label values children questionType : Option Document}

theorem ofGiven?_of_values {given : Option RecordValues}
    (h : orElse? none (optional? RecordValues.ofDocument?) values = some given) :
    ofGiven? id valueType label values children questionType =
      (ofGiven? id valueType label none children questionType).map fun r =>
        { r with values := given } := by
  rw [ofGiven?, ofGiven?, h]
  cases required? text? id <;> cases orElse? none (optional? text?) valueType <;>
    cases orElse? "" text? label <;> cases orElse? [] (listOf? some) children <;>
    cases orElse? none (optional? text?) questionType <;> rfl

/-- The record itself does not depend on the items that are given for its children. -/
theorem readGiven_children (given : String → Option Document) (items items' : List Document) :
    readGiven (Function.update given "children" (some (.list items))) =
      readGiven (Function.update given "children" (some (.list items'))) := by
  have hitems : ∀ items : List Document,
      orElse? [] (listOf? some) (some (.list items)) = some items := mapM_some
  simp only [readGiven, ofGiven?, Function.update_apply, String.reduceEq, reduceIte, hitems]
  rfl

theorem check_labelFields (id : String) (labels : List (String × String)) :
    (RecordValues.fields (labels.map fun entry => (entry.1, .text entry.2))).check id =
      .ok (Labels.ofPairs labels) := by
  have hchecked : (labels.map fun entry => (entry.1, Document.text entry.2)).mapM
      (RecordValues.checkField id) = .ok labels :=
    mapM_eq_ok_iff.mpr (List.forall₂_map_left_iff.mpr (List.forall₂_same.mpr fun _ _ => rfl))
  rw [RecordValues.check, hchecked]
  rfl

theorem check_labelPairs (id : String) (labels : List (String × String)) :
    (RecordValues.pairs (labels.map fun entry => (.text entry.1, entry.2))).check id =
      .ok (Labels.ofPairs labels) := by
  have hchecked : (labels.map fun entry => (Document.text entry.1, entry.2)).mapM
      (RecordValues.checkPair id) = .ok labels :=
    mapM_eq_ok_iff.mpr (List.forall₂_map_left_iff.mpr (List.forall₂_same.mpr fun _ _ => rfl))
  rw [RecordValues.check, hchecked]
  rfl

theorem check_congr (r : Record) {given given' : Option RecordValues}
    (h : ∀ id, checkedLabels id given = checkedLabels id given') :
    check { r with values := given } = check { r with values := given' } := by
  have hcheck : ∀ given, check { r with values := given } = if Text.trimmed r.id = "" then
      .error .emptyId else r.toVariable <$> checkedLabels (Text.trimmed r.id) given :=
    fun given => check_eq { r with values := given }
  rw [hcheck, hcheck, h]

theorem readGiven_labels (given : String → Option Document) (labels : List (String × String)) :
    readGiven (Function.update given "values" (some (labelFields labels))) =
      readGiven (Function.update given "values" (some (labelPairs labels))) := by
  have hfields : orElse? none (optional? RecordValues.ofDocument?) (some (labelFields labels)) =
      some (some (.fields (labels.map fun entry => (entry.1, .text entry.2)))) := rfl
  have hpairs : orElse? none (optional? RecordValues.ofDocument?) (some (labelPairs labels)) =
      some (some (.pairs (labels.map fun entry => (.text entry.1, entry.2)))) := by
    have hitems : (labels.map fun entry => Document.list [.text entry.1, .text entry.2]).mapM
        RecordValues.pair? = some (labels.map fun entry => (.text entry.1, entry.2)) :=
      mapM_pair?_eq_some_iff.mpr (by rw [List.map_map]; rfl)
    exact congrArg (fun pairs => (RecordValues.pairs <$> pairs).map some) hitems
  simp only [readGiven, Function.update_apply, String.reduceEq, reduceIte,
    ofGiven?_of_values hfields, ofGiven?_of_values hpairs]
  cases ofGiven? (given "id") (given "type") (given "label") none (given "children")
    (given "survey_type") with
  | none => rfl
  | some r =>
    refine check_congr r fun id => ?_
    rw [checkedLabels, checkedLabels, check_labelFields, check_labelPairs]

end Record

namespace Variable

open Record

/-- **Value labels as fields or as pairs give the same variable**, at whatever depth they stand. -/
theorem ofRecord_eq_of_listsLabels {d d' : Document} (h : ListsLabels d d') :
    ofRecord d' = ofRecord d := by
  induction h with
  | labels hreplaces =>
    have hchildren := hreplaces.given?_eq (show "children" ∈ names by decide) (by decide)
    rw [ofRecord_eq, ofRecord_eq, hreplaces.read_eq fun given => readGiven_labels given _, Record.children, Record.children,
      hchildren]
  | @child before behind c c' d d' _ hreplaces ih =>
    have hlists : ofRecords (before ++ c' :: behind) = ofRecords (before ++ c :: behind) := by
      simp only [ofRecords_eq_mapM, List.mapM_append, List.mapM_cons, ih]
    rw [ofRecord_eq, ofRecord_eq, hreplaces.read_eq fun given => readGiven_children given _ _, Record.children, Record.children]
    rcases hreplaces.given?_cases with hsame | ⟨hitems, hitems'⟩
    · rw [hsame]
    · simp only [hitems, hitems', hlists]

end Variable

/-! ## Records as a whole -/

/-- What the record of a variable is read as. The variable and all its children at any depth are clean.
The children are read of the records of the children, one of each, in order. A record is read just if all
records within it are sound, and so it is not if one of them has an unknown field, no id or a blank one,
or a value code that is none. Labels of one record given as pairs and not as fields change nothing. -/
structure Variable.ReadsTree (d : Document) : Prop where
  isClean : ∀ v, ofRecord d = .ok v → ∀ u, Variable.Within u v → u.IsClean
  children : ∀ v, ofRecord d = .ok v →
    List.Forall₂ (fun c w => ofRecord c = .ok w) (Record.children d) v.children
  exists_iff : (∃ v, ofRecord d = .ok v) ↔ ∀ e, Record.Within e d → Record.IsSound e
  error_of_isFaulty : ∀ e, Record.Within e d → Record.IsFaulty e → ∃ cause, ofRecord d = .error cause
  eq_of_listsLabels : ∀ d', Record.ListsLabels d d' → ofRecord d' = ofRecord d

theorem Variable.readsTree (d : Document) : ReadsTree d where
  isClean _ hv _ hu := isClean_of_within hu hv
  children _ hv := forall₂_children hv
  exists_iff := exists_ofRecord_iff d
  error_of_isFaulty e he hfaulty := by
    cases hd : ofRecord d with
    | error cause => exact ⟨cause, rfl⟩
    | ok v => exact absurd ((exists_ofRecord_iff d).mp ⟨v, hd⟩ e he) hfaulty.not_isSound
  eq_of_listsLabels _ h := ofRecord_eq_of_listsLabels h

namespace Questionnaire

/-- What a list of records is read as. All records have to be read, and then it is the questionnaire of
their variables; otherwise the first record that is not read is the cause. -/
structure ReadsAll (records : List Document) : Prop where
  exists_iff : (∃ q, ofRecords records = .ok q) ↔ ∀ d ∈ records, ∃ v, Variable.ofRecord d = .ok v
  eq_ofList : ∀ vs, List.Forall₂ (fun d v => Variable.ofRecord d = .ok v) records vs →
    ofRecords records = .ok (ofList vs)
  eq_error_iff : ∀ cause, ofRecords records = .error cause ↔
    ∃ before d behind, records = before ++ d :: behind ∧
      (∀ b ∈ before, ∃ v, Variable.ofRecord b = .ok v) ∧ Variable.ofRecord d = .error cause

theorem readsAll (records : List Document) : ReadsAll records where
  exists_iff := by
    rw [ofRecords, Record.exists_map_eq_ok_iff, Variable.ofRecords_eq_mapM]
    exact exists_mapM_eq_ok_iff
  eq_ofList vs h := by
    rw [ofRecords, Variable.ofRecords_eq_mapM, mapM_eq_ok_iff.mpr h]
    rfl
  eq_error_iff cause := by
    rw [← mapM_eq_error_iff, ← Variable.ofRecords_eq_mapM, ofRecords]
    cases Variable.ofRecords records with
    | error e =>
      exact ⟨fun h => congrArg Except.error (Except.error.inj h),
        fun h => congrArg Except.error (Except.error.inj h)⟩
    | ok vs => exact iff_of_false nofun nofun

/-- **Records only ever give valid trees of variables**, and are read just if they are sound at any depth.
Labels as fields and as pairs make no difference. -/
theorem records_readTrees (d : Document) (records : List Document) :
    Variable.ReadsTree d ∧ ReadsAll records :=
  ⟨Variable.readsTree d, readsAll records⟩

/-- A household, with an id between blanks and two codes of which the number is shown like the text, and
with the record of one child, as a list. -/
def household (childId : String) : Document :=
  .object [
    ("id", .text " household "),
    ("values", .list [.list [.whole 1, .text "one"], .list [.text "1", .text "uno"]]),
    ("children", .list [.list [.text childId, .null, .text "Pet"]])]

/-- The household is read, and its two codes are one. It is not read if the id of its child is blank. -/
theorem records_readTrees_household :
    (∃ v, Variable.ofRecord (household "pet") = .ok v ∧ v.id = "household" ∧
      v.values = Labels.ofPairs [("1", "one"), ("1", "uno")] ∧
      ∀ u, Variable.Within u v → u.IsClean) ∧
    (∃ cause, Variable.ofRecord (household "  ") = .error cause) ∧
    ofRecords [household "pet", household "  "] = .error .emptyId := by
  obtain ⟨htree, -⟩ := records_readTrees (household "pet") []
  obtain ⟨hblank, hall⟩ := records_readTrees (household "  ") [household "pet", household "  "]
  have hread : Variable.ofRecord (household "pet") = .ok
      { id := "household", values := Labels.ofPairs [("1", "one"), ("1", "uno")],
        children := [{ id := "pet", label := "Pet" }] } := rfl
  have hcause : Variable.ofRecord (household "  ") = .error .emptyId := rfl
  refine ⟨⟨_, hread, rfl, rfl, htree.isClean _ hread⟩, ?_, ?_⟩
  · refine hblank.error_of_isFaulty _ (.child List.mem_cons_self (.refl _)) ?_
    exact .blankId rfl (Text.trimmed_eq_empty_iff.mp rfl)
  · have hbefore : ∀ d ∈ [household "pet"], ∃ v, Variable.ofRecord d = .ok v :=
      List.forall_mem_singleton.mpr ⟨_, hread⟩
    exact (hall.eq_error_iff .emptyId).mpr ⟨_, _, [], rfl, hbefore, hcause⟩

end Questionnaire

end SurveyTables
