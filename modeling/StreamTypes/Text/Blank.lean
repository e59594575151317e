/-!
# Blank characters

The characters that are removed from both ends of an expression before it is
read, and the removal itself. The class is Unicode's white space together with
the four ASCII information separators; the zero-width space and the byte order
mark do not belong to it.

## Main definitions

- `isBlank` — the class of blank characters
- `trim` — a text without the blanks at its two ends
-/

namespace StreamTypes.Text

/-- A character that may be trimmed from the ends of an expression. -/
def isBlank (c : Char) : Bool :=
  let n := c.toNat
  (9 ≤ n && n ≤ 13) || (28 ≤ n && n ≤ 32) || n == 0x85 || n == 0xA0 || n == 0x1680 ||
    (0x2000 ≤ n && n ≤ 0x200A) || n == 0x2028 || n == 0x2029 || n == 0x202F || n == 0x205F ||
    n == 0x3000

/-- The characters that remain when the blanks at both ends are dropped. -/
def trimChars (cs : List Char) : List Char :=
  ((cs.dropWhile isBlank).reverse.dropWhile isBlank).reverse

/-- A text without the blanks at its two ends. -/
def trim (s : String) : String :=
  String.ofList (trimChars s.toList)

end StreamTypes.Text
