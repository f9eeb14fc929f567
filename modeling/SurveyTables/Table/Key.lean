import SurveyTables.Table.Path

/-!
# Axis keys

A path can be packed into one text, its key: the id and the value of a pair with `::` between them,
and `__` between the pairs. A backslash, `:` or `_` of an id or a value is written with a backslash
in front, so every path can be read back from its key.

* `Key.encode`;
* `Key.Symbol`, `Key.symbols`: the characters and separators that a key is made of;
* `Key.DecodeError`, with its `message`, and `Key.decode`.
-/

namespace SurveyTables.Key

/-- The character has a meaning in keys. -/
def isReserved (c : Char) : Bool :=
  c == '\\' || c == ':' || c == '_'

/-- The text with a backslash in front of every reserved character. -/
def escaped : List Char → List Char
  | [] => []
  | c :: cs => if isReserved c then '\\' :: c :: escaped cs else c :: escaped cs

/-- The id and the text of a pair, each with escapes. -/
def encodePair (pair : List Char × List Char) : List Char :=
  escaped pair.1 ++ ':' :: ':' :: escaped pair.2

/-- The pairs, one behind the other. -/
def encodeChars : List (List Char × List Char) → List Char
  | [] => []
  | [pair] => encodePair pair
  | pair :: rest => encodePair pair ++ '_' :: '_' :: encodeChars rest

/-- The path as a key. -/
def encode (p : Path) : String :=
  String.ofList (encodeChars (p.map fun pair => (pair.1.toList, pair.2.toList)))

/-! ## Reading keys -/

/-- What a key is made of. -/
inductive Symbol where
  | literal (c : Char)
  | pairSeparator
  | tokenSeparator
  /-- A backslash in front of a character that needs none, or at the end. -/
  | malformed
  deriving DecidableEq, Repr

/-- The symbols of a key, up to the first that is malformed. -/
def symbols : List Char → List Symbol
  | '\\' :: c :: cs => if isReserved c then .literal c :: symbols cs else [.malformed]
  | ['\\'] => [.malformed]
  | ':' :: ':' :: cs => .pairSeparator :: symbols cs
  | '_' :: '_' :: cs => .tokenSeparator :: symbols cs
  | c :: cs => .literal c :: symbols cs
  | [] => []

/-- The tokens of a key: the symbols between the token separators. -/
def splitTokens : List Symbol → List Symbol × List (List Symbol)
  | [] => ([], [])
  | .tokenSeparator :: us =>
    let (token, others) := splitTokens us
    ([], token :: others)
  | u :: us =>
    let (token, others) := splitTokens us
    (u :: token, others)

/-- What is wrong with a token. -/
inductive Fault where
  | missingSeparator
  | repeatedSeparator
  | invalidEscape
  deriving DecidableEq, Repr

/-- The literal characters at the beginning, and the symbols behind them. -/
def literals : List Symbol → List Char × List Symbol
  | .literal c :: us =>
    let (cs, rest) := literals us
    (c :: cs, rest)
  | us => ([], us)

/-- The pair of texts of a token. -/
def decodeToken (token : List Symbol) : Except Fault (List Char × List Char) :=
  match literals token with
  | (id, .pairSeparator :: rest) =>
    match literals rest with
    | (value, []) => .ok (id, value)
    | (_, .malformed :: _) => .error .invalidEscape
    | (_, _ :: _) => .error .repeatedSeparator
  | (_, .malformed :: _) => .error .invalidEscape
  | (_, _) => .error .missingSeparator

/-- The pairs of texts of a key that is not empty. -/
def decodeChars (key : List Char) : Except Fault (List (List Char × List Char)) :=
  let (token, others) := splitTokens (symbols key)
  (token :: others).mapM decodeToken

/-- Why a text is no key. -/
inductive DecodeError where
  | empty
  | fault (key : String) (fault : Fault)
  deriving DecidableEq, Repr

/-- The error as a text. -/
def DecodeError.message : DecodeError → String
  | .empty => "empty key"
  | .fault key .missingSeparator => "key '" ++ key ++ "' has a token without '::'"
  | .fault key .repeatedSeparator => "key '" ++ key ++ "' has a token with more than one '::'"
  | .fault key .invalidEscape => "key '" ++ key ++ "' has an invalid escape sequence"

/-- The path with the key. -/
def decode (key : String) : Except DecodeError Path :=
  match key.toList with
  | [] => .error .empty
  | cs =>
    match decodeChars cs with
    | .ok pairs => .ok (pairs.map fun pair => (String.ofList pair.1, String.ofList pair.2))
    | .error fault => .error (.fault key fault)

end SurveyTables.Key
