import SurveyTables.Answer.Document
import SurveyTables.Design.Document
import SurveyTables.Questionnaire.Questions
import SurveyTables.Responses.Document
import SurveyTables.Table.Shown
import SurveyTables.Table.Document
import SurveyTables.Table.Percent
import SurveyTables.Tabulation.Build
import SurveyTables.Variable.Document
import SurveyTables.Proofs.Answer.Display
import SurveyTables.Proofs.Answer.Order
import SurveyTables.Proofs.Catalog
import SurveyTables.Proofs.Catalog.Updates
import SurveyTables.Proofs.Design.ExtraSegments
import SurveyTables.Proofs.Design.Printing
import SurveyTables.Proofs.Design.Reading
import SurveyTables.Proofs.Design.Splitting
import SurveyTables.Proofs.Document.RoundTrip
import SurveyTables.Proofs.Expression.Choices
import SurveyTables.Proofs.Expression.Descent
import SurveyTables.Proofs.Expression.FirstMisfit
import SurveyTables.Proofs.Expression.Grammar
import SurveyTables.Proofs.Expression.JoinedTexts
import SurveyTables.Proofs.Expression.Lexemes
import SurveyTables.Proofs.Expression.Lexing
import SurveyTables.Proofs.Expression.Places
import SurveyTables.Proofs.Expression.Printing
import SurveyTables.Proofs.Expression.Reading
import SurveyTables.Proofs.Expression.Rereading
import SurveyTables.Proofs.Expression.WellFormed
import SurveyTables.Proofs.Number.Decimal
import SurveyTables.Proofs.Number.Magnitude
import SurveyTables.Proofs.Number.Nearest
import SurveyTables.Proofs.Number.Order
import SurveyTables.Proofs.Number.Reading
import SurveyTables.Proofs.Number.Rounding
import SurveyTables.Proofs.Number.Shortest
import SurveyTables.Proofs.Number.ShortestForm
import SurveyTables.Proofs.Number.Sums
import SurveyTables.Proofs.Questionnaire.Gathering
import SurveyTables.Proofs.Questionnaire.Index
import SurveyTables.Proofs.Questionnaire.KeptLabels
import SurveyTables.Proofs.Questionnaire.LastDefinitions
import SurveyTables.Proofs.Questionnaire.Lookup
import SurveyTables.Proofs.Questionnaire.QuestionId
import SurveyTables.Proofs.Questionnaire.Questions
import SurveyTables.Proofs.Questionnaire.Records
import SurveyTables.Proofs.Questionnaire.Valid
import SurveyTables.Proofs.Responses.Building
import SurveyTables.Proofs.Responses.Reordering
import SurveyTables.Proofs.Responses.RoundTrip
import SurveyTables.Proofs.Responses.Rows
import SurveyTables.Proofs.Responses.Selection
import SurveyTables.Proofs.Responses.Valid
import SurveyTables.Proofs.Table.KeyLanguage
import SurveyTables.Proofs.Table.KeyRoundTrip
import SurveyTables.Proofs.Table.Padding
import SurveyTables.Proofs.Table.Percent
import SurveyTables.Proofs.Tabulation.Agreement
import SurveyTables.Proofs.Tabulation.ArraySums
import SurveyTables.Proofs.Tabulation.Bases
import SurveyTables.Proofs.Tabulation.ByLabels
import SurveyTables.Proofs.Tabulation.Cells
import SurveyTables.Proofs.Tabulation.Checked
import SurveyTables.Proofs.Tabulation.ColumnShares
import SurveyTables.Proofs.Tabulation.Counts
import SurveyTables.Proofs.Tabulation.Depth
import SurveyTables.Proofs.Tabulation.DistinctLabels
import SurveyTables.Proofs.Tabulation.Faults
import SurveyTables.Proofs.Tabulation.FromDescription
import SurveyTables.Proofs.Tabulation.GroupKeys
import SurveyTables.Proofs.Tabulation.InternedKeys
import SurveyTables.Proofs.Tabulation.Layout
import SurveyTables.Proofs.Tabulation.Lines
import SurveyTables.Proofs.Tabulation.Margins
import SurveyTables.Proofs.Tabulation.NumberTexts
import SurveyTables.Proofs.Tabulation.Numbering
import SurveyTables.Proofs.Tabulation.Percent
import SurveyTables.Proofs.Tabulation.Reordering
import SurveyTables.Proofs.Tabulation.Request
import SurveyTables.Proofs.Tabulation.Respondents
import SurveyTables.Proofs.Tabulation.Selection
import SurveyTables.Proofs.Tabulation.SharedKeys
import SurveyTables.Proofs.Tabulation.ShownAlike
import SurveyTables.Proofs.Tabulation.ShownFiller
import SurveyTables.Proofs.Tabulation.Sorting
import SurveyTables.Proofs.Tabulation.StackedGroups
import SurveyTables.Proofs.Tabulation.Tally
import SurveyTables.Proofs.Tabulation.TotalColumn
import SurveyTables.Proofs.Tabulation.Transposed
import SurveyTables.Proofs.Variable.Dictionary
import SurveyTables.Proofs.Variable.Labels
import SurveyTables.Proofs.Variable.Merging
import SurveyTables.Proofs.Variable.Record
import SurveyTables.Proofs.Variable.SoundRecord
