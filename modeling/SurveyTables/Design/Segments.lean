/-!
# Segments of a table description

A table description names its axes one after the other, with ` by ` between them: a space, the two
letters in any case, and a space. Separators are found from the left and do not overlap.

* `isSeparator`;
* `Segments`, `segments`: the parts between the separators.
-/

namespace SurveyTables.Design

/-- The characters are a separator. -/
def isSeparator : List Char → Bool
  | [before, b, y, after] =>
    before == ' ' && (b == 'b' || b == 'B') && (y == 'y' || y == 'Y') && after == ' '
  | _ => false

/-- The parts of a text, of which there is at least one. -/
structure Segments where
  first : List Char
  others : List (List Char)
  deriving DecidableEq, Repr

namespace Segments

/-- All segments in order. -/
def toList (s : Segments) : List (List Char) :=
  s.first :: s.others

/-- A character in front of the first part. -/
def addChar (c : Char) (s : Segments) : Segments :=
  { s with first := c :: s.first }

/-- A separator in front of the first part. -/
def addSeparator (s : Segments) : Segments :=
  { first := [], others := s.toList }

end Segments

/-- The parts of a text between its separators. -/
def segments : List Char → Segments
  | c₁ :: c₂ :: c₃ :: c₄ :: rest =>
    if isSeparator [c₁, c₂, c₃, c₄] then (segments rest).addSeparator
    else (segments (c₂ :: c₃ :: c₄ :: rest)).addChar c₁
  | cs => { first := cs, others := [] }

/-- The parts of a text, as texts. -/
def segmentTexts (s : String) : List String :=
  (segments s.toList).toList.map String.ofList

end SurveyTables.Design
