import SurveyTables.Text.Blank

/-!
# Tokens of a table expression

A table expression is a row of names and signs, with blanks between them where wanted. A name is a
longest run of letters, digits, `_` and `.`; the run `by`, in any case, is the axis keyword.

* `Token`, `Token.text`;
* `nextToken?`: the first token of a text and what follows it;
* `tokens`: all tokens of a text; `lookaheads`: the same with the end of the text in its place.
-/

namespace SurveyTables

/-- A name or a sign of a table expression. -/
inductive Token where
  | name (id : String)
  | byWord
  | plus
  | greater
  | leftParen
  | rightParen
  | illegal (c : Char)
  deriving DecidableEq, Repr

namespace Token

/-- The token as messages write it. -/
def text : Token → String
  | .name id => id
  | .byWord => "by"
  | .plus => "+"
  | .greater => ">"
  | .leftParen => "("
  | .rightParen => ")"
  | .illegal c => "ILLEGAL(" ++ String.singleton c ++ ")"

/-- What a reader has before it, as messages write it: a token or the end of the text. -/
def lookaheadText : Option Token → String
  | some t => t.text
  | none => "EOF"

end Token

namespace Expression

/-- A character of a name: an ASCII letter or digit, `_` or `.`. -/
def isNameChar (c : Char) : Bool :=
  c.isAlphanum || c == '_' || c == '.'

/-- The word is `by` in any case. -/
def isBy : List Char → Bool
  | [b, y] => (b == 'b' || b == 'B') && (y == 'y' || y == 'Y')
  | _ => false

/-- The token of a run of name characters. -/
def word (cs : List Char) : Token :=
  if isBy cs then .byWord else .name (String.ofList cs)

/-- The token of a character that belongs to no name. -/
def sign (c : Char) : Token :=
  if c = '+' then .plus
  else if c = '>' then .greater
  else if c = '(' then .leftParen
  else if c = ')' then .rightParen
  else .illegal c

/-- The first token and the characters after it; `none` if only blanks are left. -/
def nextToken? (cs : List Char) : Option (Token × List Char) :=
  match cs.dropWhile Text.isBlank with
  | [] => none
  | c :: rest =>
    if isNameChar c then
      some (word (c :: rest.takeWhile isNameChar), rest.dropWhile isNameChar)
    else
      some (sign c, rest)

theorem length_dropWhile_le (p : Char → Bool) (cs : List Char) :
    (cs.dropWhile p).length ≤ cs.length :=
  (List.dropWhile_sublist p).length_le

theorem length_lt_of_nextToken? {cs rest : List Char} {t : Token}
    (h : nextToken? cs = some (t, rest)) : rest.length < cs.length := by
  have hle := length_dropWhile_le Text.isBlank cs
  unfold nextToken? at h
  split at h
  · simp at h
  · rename_i c tail hc
    rw [hc, List.length_cons] at hle
    have htail := length_dropWhile_le isNameChar tail
    split at h <;> (simp only [Option.some.injEq, Prod.mk.injEq] at h; obtain ⟨_, rfl⟩ := h; omega)

/-- The tokens of the characters. -/
def tokens (cs : List Char) : List Token :=
  match _h : nextToken? cs with
  | none => []
  | some (t, rest) => t :: tokens rest
termination_by cs.length
decreasing_by exact length_lt_of_nextToken? _h

/-- What a reader of the characters has before it, place by place: each token, then the end. -/
def lookaheads (cs : List Char) : List (Option Token) :=
  (tokens cs).map some ++ [none]

/-- What comes next and the characters after it; the end of the text comes next for ever. -/
def lookahead (cs : List Char) : Option Token × List Char :=
  match nextToken? cs with
  | some (t, rest) => (some t, rest)
  | none => (none, [])

/-- The first `count` things that come next. -/
def takeLookaheads (cs : List Char) : Nat → List (Option Token)
  | 0 => []
  | count + 1 => (lookahead cs).1 :: takeLookaheads (lookahead cs).2 count

end Expression

end SurveyTables
