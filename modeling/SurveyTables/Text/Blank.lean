/-!
# Blank characters

The characters that separate words and that count for nothing at the ends of a text: those with the
Unicode property `White_Space`.

* `isBlank`: the table, 25 characters;
* `trimmed`: a text without the blanks at its ends.
-/

namespace SurveyTables.Text

/-- The character has the Unicode property `White_Space`. -/
def isBlank (c : Char) : Bool :=
  let n := c.toNat
  (0x09 ≤ n && n ≤ 0x0D) || n == 0x20 || n == 0x85 || n == 0xA0 || n == 0x1680 ||
    (0x2000 ≤ n && n ≤ 0x200A) || n == 0x2028 || n == 0x2029 || n == 0x202F || n == 0x205F ||
    n == 0x3000

/-- The characters without the blanks at the end. -/
def trimmedEnd (cs : List Char) : List Char :=
  (cs.reverse.dropWhile isBlank).reverse

/-- The characters without the blanks at both ends. -/
def trimmedChars (cs : List Char) : List Char :=
  trimmedEnd (cs.dropWhile isBlank)

/-- The text without the blanks at both ends. -/
def trimmed (s : String) : String :=
  String.ofList (trimmedChars s.toList)

end SurveyTables.Text
