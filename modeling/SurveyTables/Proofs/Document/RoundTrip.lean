import SurveyTables.Design.Document
import SurveyTables.Proofs.Answer.Display
import SurveyTables.Proofs.Variable.Labels
import SurveyTables.Table.Document
import SurveyTables.Variable.Document

/-!
# Stored forms read back

Variables, designs, options and tables are stored as documents. Each part of them is read again as it
was written, and so is the whole.

* `Document.listOf?_list_map`: a list is read again if its members are;
* `Variable.Reachable`, **`Variable.Reachable.ofDocument?_toDocument`**: variables with children of any
  depth;
* `Design.ofDocument?_toDocument`, `Options.ofDocument?_toDocument`;
* `Table.IsFinite`, **`Table.IsFinite.ofDocument?_toDocument`**: tables without infinite numbers and NaN;
* **`storedForms_readBack`**.
-/

namespace SurveyTables

/-! ## Simple values -/

namespace Document

variable {α : Type} {write : α → Document} {read : Document → Option α}

theorem listOf?_list_map {as : List α} (h : ∀ a ∈ as, read (write a) = some a) :
    listOf? read (.list (as.map write)) = some as := by
  rw [listOf?]
  induction as with
  | nil => rfl
  | cons a as ih =>
    rw [List.map_cons, List.mapM_cons, h a List.mem_cons_self,
      ih fun a ha => h a (List.mem_cons_of_mem _ ha)]
    rfl

theorem optional?_ofText? (s : Option String) : optional? text? (ofText? s) = some s := by
  cases s <;> rfl

theorem listOf?_ofTexts (texts : List String) : listOf? text? (ofTexts texts) = some texts :=
  listOf?_list_map fun _ _ => rfl

end Document

open Document

/-! ## Variables -/

theorem Labels.ofDocument?_toDocument {l : Labels} (hl : l.Valid) :
    Labels.ofDocument? l.toDocument = some l := by
  have hpairs : listOf? pair? l.toDocument = some l.toList := listOf?_list_map fun _ _ => rfl
  rw [Labels.ofDocument?, hpairs]
  exact congrArg some hl.ofList_toList

namespace Variable

/-- The variables that can be made: whatever they hold, their value labels can be made, and so can
their children. -/
inductive Reachable : Variable → Prop where
  | intro {v : Variable} : v.values.Reachable → (∀ c ∈ v.children, c.Reachable) → Reachable v

theorem ofDocuments?_toDocuments {vs : List Variable}
    (h : ∀ v ∈ vs, ofDocument? v.toDocument = some v) : ofDocuments? (toDocuments vs) = some vs := by
  induction vs with
  | nil => rw [toDocuments, ofDocuments?]
  | cons v vs ih =>
    rw [toDocuments, ofDocuments?, h v List.mem_cons_self,
      ih fun v hv => h v (List.mem_cons_of_mem _ hv)]
    rfl

theorem childrenOfFields?_of_ne {name : String} (hname : name ≠ "children") (d : Document)
    (rest : List (String × Document)) :
    childrenOfFields? ((name, d) :: rest) = childrenOfFields? rest := by
  cases d <;> rw [childrenOfFields?, if_neg hname] <;> simp

theorem childrenOfFields?_children (items : List Document) (rest : List (String × Document)) :
    childrenOfFields? (("children", .list items) :: rest) = ofDocuments? items := by
  rw [childrenOfFields?, if_pos rfl]

/-- **A variable is read again as it was written**, by induction on the depth of its children. -/
theorem Reachable.ofDocument?_toDocument {v : Variable} (h : v.Reachable) :
    ofDocument? v.toDocument = some v := by
  induction h with
  | @intro v hvalues _ ih =>
    obtain ⟨id, valueType, label, values, children, questionType⟩ := v
    have hvalues : Labels.ofDocument? values.toDocument = some values :=
      Labels.ofDocument?_toDocument hvalues.valid
    have hfields : ofFields? (some (.text id)) (some (.ofText? valueType)) (some (.text label))
        (some values.toDocument) (some (.ofText? questionType)) =
        some { id, valueType, label, values, questionType } := by
      simp only [ofFields?, required?, orElse?, optional?_ofText?, hvalues, text?, bind,
        Option.bind_some, pure]
    have hchildren : childrenOfFields? [("id", .text id), ("variable_type", .ofText? valueType),
        ("label", .text label), ("values", values.toDocument),
        ("children", .list (toDocuments children)), ("survey_type", .ofText? questionType)] =
        some children := by
      rw [childrenOfFields?_of_ne (by decide), childrenOfFields?_of_ne (by decide),
        childrenOfFields?_of_ne (by decide), childrenOfFields?_of_ne (by decide),
        childrenOfFields?_children, ofDocuments?_toDocuments ih]
    rw [toDocument, ofDocument?, hchildren]
    exact congrArg (Option.bind · fun v => some { v with children }) hfields

end Variable

/-! ## Designs and options -/

namespace Design

theorem axisOfDocument?_axisToDocument (gs : List Group) :
    axisOfDocument? (axisToDocument gs) = some gs :=
  listOf?_list_map fun g _ => listOf?_ofTexts g

theorem ofDocument?_toDocument (d : Design) : ofDocument? d.toDocument = some d := by
  have hadditional : optional? axisOfDocument? ((d.additional.map axisToDocument).getD .null) =
      some d.additional := by
    cases d.additional with
    | none => rfl
    | some gs => exact congrArg (Option.map some) (axisOfDocument?_axisToDocument gs)
  have hfields : d.toDocument.fields? ["rows", "columns", "additional_axis"] =
      some [some (axisToDocument d.rows), some (axisToDocument d.columns),
        some ((d.additional.map axisToDocument).getD .null)] := rfl
  simp only [ofDocument?, hfields, bind, Option.bind_some, required?, orElse?,
    axisOfDocument?_axisToDocument, hadditional, pure]

end Design

theorem Statistic.ofDocument?_toDocument (s : Statistic) :
    Statistic.ofDocument? s.toDocument = some s := by
  cases s <;> rfl

theorem Caption.ofDocument?_toDocument (c : Caption) : Caption.ofDocument? c.toDocument = some c :=
  rfl

theorem Options.ofDocument?_toDocument (o : Options) : Options.ofDocument? o.toDocument = some o := by
  have hstatistics : listOf? Statistic.ofDocument?
      (.list (o.statistics.map Statistic.toDocument)) = some o.statistics :=
    listOf?_list_map fun s _ => s.ofDocument?_toDocument
  have hfields : o.toDocument.fields?
      ["weight", "column_total", "statistics", "title", "subtitle", "footer", "corner"] =
      some [some (.ofText? o.weight), some (.bool o.columnTotal),
        some (.list (o.statistics.map Statistic.toDocument)), some (.text o.caption.title),
        some (.text o.caption.subtitle), some (.text o.caption.footer),
        some (.text o.caption.corner)] := rfl
  simp only [Options.ofDocument?, hfields, bind, Option.bind_some, orElse?, optional?_ofText?,
    hstatistics, bool?, text?, pure]

/-! ## Tables -/

theorem Label.Kind.ofDocument?_toDocument (k : Label.Kind) :
    Label.Kind.ofDocument? k.toDocument = some k := by
  cases k <;> rfl

theorem Label.ofDocument?_toDocument (l : Label) : Label.ofDocument? l.toDocument = some l := by
  have hpath : listOf? pair? l.path.toDocument = some l.path := listOf?_list_map fun _ _ => rfl
  have hfields : l.toDocument.fields? ["path", "kind", "statistic"] =
      some [some l.path.toDocument, some l.kind.toDocument, some l.statistic.toDocument] := rfl
  simp only [Label.ofDocument?, hfields, bind, Option.bind_some, required?, hpath,
    l.kind.ofDocument?_toDocument, l.statistic.ofDocument?_toDocument, pure]

theorem Warning.ofDocument?_toDocument (w : Warning) : Warning.ofDocument? w.toDocument = some w := by
  cases w with
  | extraSegments extra =>
    exact congrArg
      (Option.bind · fun dropped => some (Warning.extraSegments { found := extra.found, dropped }))
      (listOf?_ofTexts extra.dropped)
  | additionalAxis => rfl
  | notComputed s => exact congrArg (Option.map Warning.notComputed) s.ofDocument?_toDocument
  | undecodableKey key reason => rfl

namespace Table

/-- No cell of the table is infinite or NaN. -/
def IsFinite (t : Table Float) : Prop :=
  ∀ row ∈ t.cells, ∀ cell ∈ row, ∀ x ∈ cell, Number.isFinite x = true

instance (t : Table Float) : Decidable t.IsFinite :=
  inferInstanceAs (Decidable (∀ row ∈ t.cells, ∀ cell ∈ row, ∀ x ∈ cell, Number.isFinite x = true))

variable {t : Table Float}

theorem float?_cellToDocument {cell : Option Float} (h : ∀ x ∈ cell, Number.isFinite x = true) :
    optional? float? (cellToDocument cell) = some cell := by
  cases cell with
  | none => rfl
  | some x =>
    rw [cellToDocument, ofFloat, if_pos (h x rfl)]
    rfl

/-- **A table of finite numbers is read again as it was written.** -/
theorem IsFinite.ofDocument?_toDocument (h : t.IsFinite) : Table.ofDocument? t.toDocument = some t := by
  have hlabels : ∀ ls : List Label,
      listOf? Label.ofDocument? (.list (ls.map Label.toDocument)) = some ls :=
    fun ls => listOf?_list_map fun l _ => l.ofDocument?_toDocument
  have hcells : listOf? (listOf? (optional? float?))
      (.list (t.cells.map fun row => .list (row.map cellToDocument))) = some t.cells :=
    listOf?_list_map fun row hrow => listOf?_list_map fun cell hcell =>
      float?_cellToDocument (h row hrow cell hcell)
  have hwarnings : listOf? Warning.ofDocument? (.list (t.warnings.map Warning.toDocument)) =
      some t.warnings :=
    listOf?_list_map fun w _ => w.ofDocument?_toDocument
  have hfields : t.toDocument.fields?
      ["rows", "columns", "cells", "statistic", "metadata", "warnings"] =
      some [some (.list (t.rows.map Label.toDocument)), some (.list (t.columns.map Label.toDocument)),
        some (.list (t.cells.map fun row => .list (row.map cellToDocument))),
        some t.statistic.toDocument, some t.caption.toDocument,
        some (.list (t.warnings.map Warning.toDocument))] := rfl
  simp only [Table.ofDocument?, hfields, bind, Option.bind_some, required?, hlabels, hcells,
    t.statistic.ofDocument?_toDocument, t.caption.ofDocument?_toDocument, hwarnings, pure]

theorem isNaN_of_isFinite {x : Float} (h : Number.isFinite x = true) : Number.isNaN x = false := by
  rw [Number.isFinite] at h
  rw [Number.isNaN]
  cases hx : Number.magnitude x with
  | finite => rfl
  | infinite | nan => rw [hx] at h; exact absurd h Bool.false_ne_true

theorem beq_self_of_forall {α : Type} [BEq α] {as : List α} (h : ∀ a ∈ as, (a == a) = true) :
    (as == as) = true := by
  induction as with
  | nil => rfl
  | cons a as ih =>
    rw [List.cons_beq_cons, h a List.mem_cons_self,
      ih fun a ha => h a (List.mem_cons_of_mem _ ha)]
    rfl

theorem IsFinite.same_self (h : t.IsFinite) : t.same t = true := by
  have hcells : (t.cells == t.cells) = true := by
    refine beq_self_of_forall fun row hrow => beq_self_of_forall fun cell hcell => ?_
    cases cell with
    | none => rfl
    | some x =>
      have hx := isNaN_of_isFinite (h row hrow _ hcell x rfl)
      rw [Option.some_beq_some]
      exact Float.beq_self_iff.mpr (Answer.ne_nan_of_isNaN hx)
  simp only [same, hcells, beq_self_eq_true, Bool.and_self]

end Table

/-! ## All stored forms -/

/-- **Stored forms are read again as they were written**: variables, designs, options, and tables whose
cells are empty or finite. -/
theorem storedForms_readBack :
    (∀ v : Variable, v.Reachable → Variable.ofDocument? v.toDocument = some v) ∧
    (∀ d : Design, Design.ofDocument? d.toDocument = some d) ∧
    (∀ o : Options, Options.ofDocument? o.toDocument = some o) ∧
    ∀ t : Table Float, t.IsFinite →
      Table.ofDocument? t.toDocument = some t ∧ t.same t = true :=
  ⟨fun _ h => h.ofDocument?_toDocument, Design.ofDocument?_toDocument, Options.ofDocument?_toDocument,
    fun _ h => ⟨h.ofDocument?_toDocument, h.same_self⟩⟩

/-- A question with a child that has a child of its own, and value labels that are not in order. -/
def layeredQuestion : Variable where
  id := "q1"
  label := "Brands"
  values := .ofPairs [("2", "Other"), ("1", "None"), ("2", "Any other")]
  children :=
    [{ id := "q1_1", questionType := some "checkbox", children := [{ id := "", valueType := some "" }] }]

theorem reachable_layeredQuestion : layeredQuestion.Reachable := by
  refine .intro (.ofPairs _) fun c hc => ?_
  obtain rfl := List.mem_singleton.mp hc
  refine .intro .empty fun c hc => ?_
  obtain rfl := List.mem_singleton.mp hc
  exact .intro .empty fun c hc => absurd hc List.not_mem_nil

/-- A table with an empty cell, a negative zero and rows of different lengths. -/
def raggedTable : Table Float where
  rows := [{ path := [("pet", "cat"), filler], kind := .data 3, statistic := .columnPercent }]
  columns := [{ path := [], kind := .total, statistic := .count }]
  cells := [[some (-0.0), none], [], [some 0.1]]
  statistic := .columnPercent
  caption := { title := "Pets" }
  warnings := [.extraSegments { found := 4, dropped := ["q4"] }, .notComputed .mean,
    .undecodableKey "" "empty key", .additionalAxis]

theorem storedForms_readBack_ragged :
    (layeredQuestion.Reachable ∧ raggedTable.IsFinite) ∧
    Variable.ofDocument? layeredQuestion.toDocument = some layeredQuestion ∧
    Table.ofDocument? raggedTable.toDocument = some raggedTable ∧
    raggedTable.same raggedTable = true :=
  have hfinite : raggedTable.IsFinite := by decide
  ⟨⟨reachable_layeredQuestion, hfinite⟩, storedForms_readBack.1 _ reachable_layeredQuestion,
    storedForms_readBack.2.2.2 _ hfinite⟩

end SurveyTables
