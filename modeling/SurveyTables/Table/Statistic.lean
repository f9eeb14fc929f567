import SurveyTables.Document.Reading

/-!
# Statistics

What the cells of a table row hold. Only counts are computed, and column percentages from them.

* `Statistic`, `Statistic.name`, `Statistic.marker`, `Statistic.ofName?`;
* `Statistic.toDocument`, `Statistic.ofDocument?`.
-/

namespace SurveyTables

/-- What the cells of a row hold. -/
inductive Statistic where
  | count
  | columnPercent
  | mean
  | median
  | standardDeviation
  | variance
  | samplingError
  deriving DecidableEq, Repr

namespace Statistic

/-- All statistics. -/
def all : List Statistic :=
  [.count, .columnPercent, .mean, .median, .standardDeviation, .variance, .samplingError]

/-- The name of a statistic in documents. -/
def name : Statistic → String
  | .count => "Count"
  | .columnPercent => "ColumnPercent"
  | .mean => "Mean"
  | .median => "Median"
  | .standardDeviation => "StdDev"
  | .variance => "Variance"
  | .samplingError => "SamplingError"

/-- The marker that stands for a statistic in labels. -/
def marker : Statistic → String
  | .count => "$COUNT$"
  | .columnPercent => "$CPCT$"
  | .mean => "$MEAN$"
  | .median => "$MEDIAN$"
  | .standardDeviation => "$STD$"
  | .variance => "$VAR$"
  | .samplingError => "$SAMPLING_ERROR$"

/-- The statistic with the name. -/
def ofName? (name : String) : Option Statistic :=
  all.find? (·.name == name)

/-- The statistic written as a document. -/
def toDocument (s : Statistic) : Document :=
  .text s.name

/-- The statistic that the document describes. -/
def ofDocument? (d : Document) : Option Statistic := do
  let (name, content) ← d.variant?
  if Document.isBare content then ofName? name else none

end Statistic

end SurveyTables
