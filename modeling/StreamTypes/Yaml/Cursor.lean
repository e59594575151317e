import StreamTypes.Yaml.Failure

/-!
# Reading YAML character by character

The classes of characters that the rules of YAML name, and a cursor that moves
through a text and keeps count of lines and columns.

## Main definitions

- `Cursor` — a position in a text
- `Reader` — reads part of a text, or fails
-/

namespace StreamTypes.Yaml

/-- The character that stands for the end of the text; no text holds it. -/
def endMark : Char := '\x00'

/-- The characters that may stand in a document. -/
def isAllowed (c : Char) : Bool :=
  let n := c.toNat
  n == 0x09 || n == 0x0A || n == 0x0D || (0x20 ≤ n && n ≤ 0x7E) || n == 0x85 ||
    (0xA0 ≤ n && n ≤ 0xD7FF) || (0xE000 ≤ n && n ≤ 0xFFFD) || (0x10000 ≤ n && n ≤ 0x10FFFF)

/-- The characters that end a line. -/
def isBreak (c : Char) : Bool :=
  c = '\r' || c = '\n' || c.toNat = 0x85 || c.toNat = 0x2028 || c.toNat = 0x2029

/-- The end of a line or of the text. -/
def isLineEnd (c : Char) : Bool :=
  isBreak c || c = endMark

/-- A space, or the end of a line or of the text. -/
def isSpaceOrEnd (c : Char) : Bool :=
  c = ' ' || isLineEnd c

/-- A space or a tab, or the end of a line or of the text. -/
def isGapOrEnd (c : Char) : Bool :=
  c = '\t' || isSpaceOrEnd c

/-- A space or a tab. -/
def isTabOrSpace (c : Char) : Bool :=
  c = ' ' || c = '\t'

/-- The characters of names. -/
def isNameChar (c : Char) : Bool :=
  c.isAlphanum || c = '-' || c = '_'

/-- A position in a text. -/
structure Cursor where
  rest : List Char
  /-- The number of characters before the position. -/
  index : Nat := 0
  /-- The number of lines before the position. -/
  line : Nat := 0
  /-- The number of characters before the position on its line. -/
  column : Nat := 0
  /-- The number of characters of the whole text. -/
  size : Nat := rest.length

namespace Cursor

/-- The character `k` places further on. -/
def peek (c : Cursor) (k : Nat) : Char :=
  c.rest.getD k endMark

/-- The next position. A byte order mark takes up no column. -/
def next (c : Cursor) : Cursor :=
  match c.rest with
  | [] => c
  | ch :: rest =>
    let c := { c with rest := rest, index := c.index + 1 }
    if isBreak ch && !(ch = '\r' && rest.head? = some '\n') then
      { c with line := c.line + 1, column := 0 }
    else if ch.toNat = 0xFEFF then c
    else { c with column := c.column + 1 }

/-- The position `k` characters further on. -/
def skip (c : Cursor) : Nat → Cursor
  | 0 => c
  | k + 1 => c.next.skip k

end Cursor

/-- Reads part of a text, or fails. -/
abbrev Reader : Type → Type :=
  StateT Cursor (Except Failure)

namespace Reader

/-- The text is not a document. -/
def fail {α : Type} : Reader α :=
  throw .malformed

/-- The character `k` places further on, which is not read. -/
def peek (k : Nat) : Reader Char := do
  return (← get).peek k

/-- Reads `k` characters. -/
def skip (k : Nat) : Reader Unit :=
  modify fun c => c.skip k

/-- Reads the longest run of characters of a class. -/
def readWhile (inClass : Char → Bool) : Reader (List Char) := do
  let run := (← get).rest.takeWhile inClass
  skip run.length
  return run

/-- Reads spaces. -/
def skipSpaces : Reader Unit := do
  discard <| readWhile (· = ' ')

/-- Reads what is left of a line, but not its end. -/
def skipLine : Reader Unit := do
  discard <| readWhile fun c => !isLineEnd c

/-- Reads the end of a line, if the line ends here, and yields the line break that it
stands for. -/
def lineBreak : Reader (List Char) := do
  let c ← peek 0
  if c.toNat = 0x2028 || c.toNat = 0x2029 then
    skip 1
    return [c]
  else if isBreak c then
    skip (if c = '\r' && (← peek 1) = '\n' then 2 else 1)
    return ['\n']
  else return []

/-- Whether a marker that separates documents stands here. -/
def atSeparator : Reader Bool := do
  let marker := (← get).rest.take 3
  return (marker = ['-', '-', '-'] || marker = ['.', '.', '.']) && isGapOrEnd (← peek 3)

/-- Bounds the rounds of a loop that reads at least one character in each round. -/
def rounds : Reader Nat := do
  return (← get).size + 2

end Reader

end StreamTypes.Yaml
