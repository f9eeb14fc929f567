/-!
# Label paths

A row or column of a table is labelled by a path: pairs of a variable id and a value, the outermost
first. The paths of one axis are brought to the same length by filler pairs at the end.

* `Pair`, `Path`, `filler`;
* `Path.flat`: a path as one row of texts; `Path.depth`: the number of pairs before the filler;
* `padded`: paths brought to the length of the longest.
-/

namespace SurveyTables

/-- A variable id and a value. -/
abbrev Pair : Type := String × String

/-- The pairs that label a row or a column, the outermost first. -/
abbrev Path : Type := List Pair

/-- The pair that stands for none. -/
def filler : Pair := ("", "")

namespace Path

/-- The ids and values one after the other. -/
def flat (p : Path) : List String :=
  p.flatMap fun pair => [pair.1, pair.2]

/-- The number of pairs before the first filler. -/
def depth (p : Path) : Nat :=
  (p.takeWhile (· != filler)).length

/-- The path brought to a length by filler. -/
def pad (length : Nat) (p : Path) : Path :=
  p ++ List.replicate (length - p.length) filler

end Path

/-- The length of the longest path. -/
def longest (paths : List Path) : Nat :=
  paths.foldl (fun length p => max length p.length) 0

/-- The paths brought to the length of the longest. -/
def padded (paths : List Path) : List Path :=
  paths.map (Path.pad (longest paths))

end SurveyTables
