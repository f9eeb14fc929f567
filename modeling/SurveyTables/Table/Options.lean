import SurveyTables.Table.Statistic

/-!
# Options of a table

What a table is asked for besides its design: a weight variable, a total column, statistics, and the
texts around it.

* `Caption`, `Caption.toDocument`, `Caption.ofDocument?`;
* `Options`, `Options.toDocument`, `Options.ofDocument?`.
-/

namespace SurveyTables

/-- The texts around a table. -/
structure Caption where
  title : String := ""
  subtitle : String := ""
  footer : String := ""
  corner : String := ""
  deriving DecidableEq, Repr

namespace Caption

/-- The texts as the fields of a document. -/
def fields (c : Caption) : List (String × Document) :=
  [("title", .text c.title), ("subtitle", .text c.subtitle), ("footer", .text c.footer),
    ("corner", .text c.corner)]

/-- The caption written as a document. -/
def toDocument (c : Caption) : Document :=
  .object c.fields

/-- The texts that a document is; none may be left out. -/
def ofDocument? (d : Document) : Option Caption := do
  match ← d.fields? ["title", "subtitle", "footer", "corner"] with
  | [title, subtitle, footer, corner] =>
    let title ← Document.required? Document.text? title
    let subtitle ← Document.required? Document.text? subtitle
    let footer ← Document.required? Document.text? footer
    let corner ← Document.required? Document.text? corner
    return { title, subtitle, footer, corner }
  | _ => none

end Caption

/-- What a table is asked for besides its design. -/
structure Options where
  /-- The variable that holds the weights; without one every respondent weighs 1. -/
  weight : Option String := none
  /-- There is a column for all respondents. -/
  columnTotal : Bool := true
  statistics : List Statistic := [.count]
  caption : Caption := {}
  deriving DecidableEq, Repr

namespace Options

/-- The options written as a document. -/
def toDocument (o : Options) : Document :=
  .object
    ([("weight", .ofText? o.weight), ("column_total", .bool o.columnTotal),
      ("statistics", .list (o.statistics.map Statistic.toDocument))] ++ o.caption.fields)

/-- The options that a document is. What is left out is as in the default options. -/
def ofDocument? (d : Document) : Option Options := do
  let names := ["weight", "column_total", "statistics", "title", "subtitle", "footer", "corner"]
  match ← d.fields? names with
  | [weight, columnTotal, statistics, title, subtitle, footer, corner] =>
    let weight ← Document.orElse? none (Document.optional? Document.text?) weight
    let columnTotal ← Document.orElse? true Document.bool? columnTotal
    let statistics ←
      Document.orElse? [.count] (Document.listOf? Statistic.ofDocument?) statistics
    let title ← Document.orElse? "" Document.text? title
    let subtitle ← Document.orElse? "" Document.text? subtitle
    let footer ← Document.orElse? "" Document.text? footer
    let corner ← Document.orElse? "" Document.text? corner
    return { weight, columnTotal, statistics, caption := { title, subtitle, footer, corner } }
  | _ => none

end Options

end SurveyTables
