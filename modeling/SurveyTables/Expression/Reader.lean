import SurveyTables.Expression.Basic
import SurveyTables.Expression.Token

/-!
# Reading an expression

An expression is a sum of chains of atoms, an atom a name or a sum in parentheses. A reader goes
through the tokens once and keeps a draft of every sum that it is inside of. It stops in front of the
first token that does not fit, and can then be asked to read again from there.

* `ReadError`, with its `message`;
* `Draft`: a sum that is being read; `readItem` and `readRest`: the two places in it;
* `Reader`, `Reader.read`: reading with what earlier readings left behind;
* `Expression.ofText`: reading a whole text.
-/

namespace SurveyTables

namespace Expression

/-- Why a text is not an expression. -/
inductive ReadError where
  /-- There is nothing to read. -/
  | empty
  /-- The keyword stands where a variable is due. -/
  | reservedWord
  /-- The text ends where a variable is due, with this many groups open. -/
  | endInside (depth : Nat)
  /-- The text ends where a variable is due, with no group open. -/
  | endOfText
  | illegal (c : Char)
  /-- This token stands where a variable is due. -/
  | unexpected (found : Token)
  /-- A group is closed that was not opened. -/
  | unbalanced
  /-- The group at this depth is not closed where it has to be. -/
  | unclosed (depth : Nat) (found : Option Token)
  /-- The expression is complete and something follows. -/
  | trailing (found : Token)
  deriving DecidableEq, Repr

namespace ReadError

/-- Why the text is no expression, in words. -/
def reason : ReadError → String
  | .empty => "Empty expression"
  | .reservedWord => "Reserved keyword 'by' cannot be used as a variable name"
  | .endInside depth => "Unexpected end of expression: " ++ toString depth ++ " unclosed '('"
  | .endOfText => "Unexpected end of expression"
  | .illegal c => "Illegal character: " ++ String.singleton c
  | .unexpected found => "Unexpected token: " ++ found.text
  | .unbalanced => "Unbalanced ')' without matching '('"
  | .unclosed depth found =>
    "Expected ')' to close group at depth " ++ toString depth ++ ", found " ++
      Token.lookaheadText found
  | .trailing found => "Unexpected token after expression: " ++ found.text

/-- The error as a text. -/
def message (e : ReadError) : String :=
  "Parse error: " ++ e.reason

/-- What is wrong where a variable or a group is due, with `depth` groups open. -/
def ofItem (depth : Nat) : Option Token → ReadError
  | none => if 0 < depth then .endInside depth else .endOfText
  | some .byWord => .reservedWord
  | some (.illegal c) => .illegal c
  | some t => .unexpected t

/-- What is wrong behind a complete sum with no group open. -/
def ofEnd : Token → ReadError
  | .rightParen => .unbalanced
  | t => .trailing t

end ReadError

/-! ## Drafts -/

/-- The item itself if it is the only one, otherwise all of them wrapped. -/
def collapse (wrap : List Expression → Expression) : List Expression → Expression
  | [e] => e
  | es => wrap es

/-- A sum that is being read: its finished chains and the items of its last chain, newest first. -/
structure Draft where
  chains : List Expression := []
  items : List Expression := []

namespace Draft

/-- The last chain has one more item. -/
def addItem (d : Draft) (e : Expression) : Draft :=
  { d with items := e :: d.items }

/-- The chain that has been read. -/
def chain (d : Draft) : Expression :=
  collapse .nest d.items.reverse

/-- The last chain is finished and a new one begins. -/
def endChain (d : Draft) : Draft :=
  { chains := d.chain :: d.chains }

/-- The sum that has been read. -/
def sum (d : Draft) : Expression :=
  collapse .sum d.endChain.chains.reverse

end Draft

end Expression

/-! ## Reading -/

/-- A place in a text: the tokens to come, and how many groups earlier readings left open. -/
structure Reader where
  rest : List Token
  depth : Nat := 0
  deriving DecidableEq, Repr

namespace Expression

/-- Stops behind a complete sum, which is the expression if no group is open and no token follows. -/
def finish (depth : Nat) (outer : List Draft) (draft : Draft) (rest : List Token) :
    Except ReadError Expression × Reader :=
  let depth := depth + outer.length
  match outer, rest with
  | [], [] => (.ok draft.sum, { rest, depth })
  | [], t :: _ => (.error (.ofEnd t), { rest, depth })
  | _ :: _, _ => (.error (.unclosed depth rest.head?), { rest, depth })

mutual

/-- Reads on where an item is due. `outer` are the drafts around `draft`, the innermost first. -/
def readItem (depth : Nat) (outer : List Draft) (draft : Draft) :
    List Token → Except ReadError Expression × Reader
  | .name id :: rest => readRest depth outer (draft.addItem (.single id)) rest
  | .leftParen :: rest => readItem depth (draft :: outer) {} rest
  | rest =>
    let depth := depth + outer.length
    (.error (.ofItem depth rest.head?), { rest, depth })

/-- Reads on behind an item. -/
def readRest (depth : Nat) (outer : List Draft) (draft : Draft) :
    List Token → Except ReadError Expression × Reader
  | .greater :: rest => readItem depth outer draft rest
  | .plus :: rest => readItem depth outer draft.endChain rest
  | .rightParen :: rest =>
    match outer with
    | around :: outer => readRest depth outer (around.addItem (.paren draft.sum)) rest
    | [] => finish depth [] draft (.rightParen :: rest)
  | rest => finish depth outer draft rest

end

end Expression

namespace Reader

/-- At the beginning of the text. -/
def ofText (s : String) : Reader :=
  { rest := Expression.tokens s.toList }

/-- Reads one expression up to the end of the text. A reading that fails stops in front of the token
that does not fit and keeps count of the groups that it leaves open. -/
def read (r : Reader) : Except Expression.ReadError Expression × Reader :=
  match r.rest with
  | [] => (.error .empty, r)
  | _ :: _ => Expression.readItem r.depth [] {} r.rest

/-- Reads `count` times, one reading after the other. -/
def readTimes (r : Reader) : Nat → List (Except Expression.ReadError Expression)
  | 0 => []
  | count + 1 => r.read.1 :: readTimes r.read.2 count

end Reader

/-- The expression that the whole text is. -/
def Expression.ofText (s : String) : Except Expression.ReadError Expression :=
  (Reader.ofText s).read.1

end SurveyTables
