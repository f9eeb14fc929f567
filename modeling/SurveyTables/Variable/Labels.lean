import SurveyTables.Catalog
import SurveyTables.Document.Reading

/-!
# Value labels

The labels of the answer codes of a variable, in the order of the questionnaire, one label for each
code.

* `Labels`, `Labels.label?`, `Labels.codes`;
* `Labels.insert`, `Labels.insertReplacing`, `Labels.merge`, `Labels.ofPairs`: a code that is there keeps
  its place and takes the new label;
* `Labels.toDocument`, `Labels.ofDocument?`.
-/

namespace SurveyTables

/-- Labels in order, each with its code. -/
abbrev Labels : Type := Catalog (Prod.fst : String × String → String)

namespace Labels

/-- The label of the code. -/
def label? (l : Labels) (code : String) : Option String :=
  (l.find? code).map Prod.snd

/-- The codes in order. -/
def codes (l : Labels) : List String :=
  l.keys

/-- The labels with one more, or with a new label for the code. -/
def insert (l : Labels) (code label : String) : Labels :=
  l.put (code, label)

/-- The labels with one more, or with a new label for the code, and the label that it replaces. -/
def insertReplacing (l : Labels) (code label : String) : Option String × Labels :=
  (l.label? code, l.insert code label)

/-- The labels together with those of `m`, whose label counts where both have one. -/
def merge (l m : Labels) : Labels :=
  m.toList.foldl (fun done pair => done.insert pair.1 pair.2) l

/-- The labels of the pairs of code and label, each inserted in turn. -/
def ofPairs (pairs : List (String × String)) : Labels :=
  Catalog.ofList pairs

/-- The labels written as a document. -/
def toDocument (l : Labels) : Document :=
  .list (l.toList.map fun pair => .list [.text pair.1, .text pair.2])

/-- The labels that the document describes. -/
def ofDocument? (d : Document) : Option Labels :=
  ofPairs <$> d.listOf? Document.pair?

end Labels

end SurveyTables
