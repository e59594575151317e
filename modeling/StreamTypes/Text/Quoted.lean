import StreamTypes.Text.Printable
import StreamTypes.Text.Wide

/-!
# Quoted text

Messages show a text between quotation marks. The mark is a single quote,
unless the text holds single quotes and no double quote. Backslashes, the mark
itself, unprintable characters and surrogates are escaped, so a quotation stays on
one line and shows every code point.

## Main definitions

- `quoteMark` — the mark that fits a text
- `escaped` — how one code point is written between two marks
- `quotedWide`, `quoted` — the quotation
-/

namespace StreamTypes.Text

/-- The lower-case hexadecimal digits of `n`, padded with zeros to `width` places. -/
def hexDigits (width n : Nat) : List Char :=
  let digits := Nat.toDigits 16 n
  List.replicate (width - digits.length) '0' ++ digits

/-- The mark around a text: a double quote exactly when the text holds a single
quote and no double quote. -/
def quoteMark (t : WideText) : Char :=
  if t.contains (.char '\'') && !t.contains (.char '"') then '"' else '\''

/-- The spelling of a code by an escape. -/
def escapedCode (n : Nat) : List Char :=
  if n ≤ 0xFF then '\\' :: 'x' :: hexDigits 2 n
  else if n ≤ 0xFFFF then '\\' :: 'u' :: hexDigits 4 n
  else '\\' :: 'U' :: hexDigits 8 n

/-- The spelling of one code point between two marks. -/
def escaped (mark : Char) : CodePoint → List Char
  | .char c =>
    if c = mark || c = '\\' then ['\\', c]
    else if c = '\t' then ['\\', 't']
    else if c = '\n' then ['\\', 'n']
    else if c = '\r' then ['\\', 'r']
    else if isPrintable c then [c]
    else escapedCode c.toNat
  | .surrogate index => escapedCode (CodePoint.surrogate index).code

/-- The characters of the quotation of a text. -/
def quotedChars (t : WideText) : List Char :=
  let mark := quoteMark t
  mark :: t.flatMap (escaped mark) ++ [mark]

/-- The quotation of a text that may hold surrogates. -/
def quotedWide (t : WideText) : String :=
  String.ofList (quotedChars t)

/-- The quotation of a text. -/
def quoted (s : String) : String :=
  quotedWide (.ofString s)

/-- The quotation of a single character. -/
def quotedChar (c : Char) : String :=
  quotedWide [.char c]

end StreamTypes.Text
