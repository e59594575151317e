import StreamTypes.Yaml.Cursor

/-!
# Scalars in YAML

The ways in which a document writes a text: between quotation marks, as an
indented block, or plainly. Line breaks inside a text are folded: a single one
becomes a space, and of several the first one is dropped.

## Main definitions

- `Reader.quoted` — text between single or double quotation marks
- `Reader.block` — a literal or folded block
- `Reader.plain` — text without marks
-/

namespace StreamTypes.Yaml.Reader

/-- The character that an escape letter stands for. -/
def escapeTarget? : Char → Option Char
  | '0' => some '\x00'
  | 'a' => some '\x07'
  | 'b' => some '\x08'
  | 't' => some '\t'
  | '\t' => some '\t'
  | 'n' => some '\n'
  | 'v' => some '\x0b'
  | 'f' => some '\x0c'
  | 'r' => some '\r'
  | 'e' => some '\x1b'
  | ' ' => some ' '
  | '"' => some '"'
  | '\\' => some '\\'
  | '/' => some '/'
  | 'N' => some (Char.ofNat 0x85)
  | '_' => some (Char.ofNat 0xA0)
  | 'L' => some (Char.ofNat 0x2028)
  | 'P' => some (Char.ofNat 0x2029)
  | _ => none

/-- The number of hexadecimal digits after an escape letter. -/
def escapeWidth? : Char → Option Nat
  | 'x' => some 2
  | 'u' => some 4
  | 'U' => some 8
  | _ => none

/-- The empty lines inside a quoted text; documents may not be separated there. -/
def quotedBreaks : Nat → Reader (List Char)
  | 0 => fail
  | fuel + 1 => do
    if ← atSeparator then fail
    discard <| readWhile isTabOrSpace
    if isBreak (← peek 0) then
      let first ← lineBreak
      return first ++ (← quotedBreaks fuel)
    else return []

/-- The gap between two words of a quoted text, with line breaks folded. -/
def quotedGap : Reader (List Char) := do
  let gap ← readWhile isTabOrSpace
  let c ← peek 0
  if c = endMark then fail
  else if isBreak c then
    let first ← lineBreak
    let more ← quotedBreaks (← rounds)
    -- A single line break is a space; of several the first one is dropped.
    if first ≠ ['\n'] then return first ++ more
    else if more.isEmpty then return [' ']
    else return more
  else return gap

/-- The code point with the code of an escape. -/
def escapedPoint (code : Nat) : Reader WideText :=
  match CodePoint.ofCode? code with
  | some point => return [point]
  | none => throw (.value (if code < 0x80000000 then .codeRange else .codeSize))

/-- What a backslash and the characters after it stand for. -/
def escape : Reader WideText := do
  skip 1
  let c ← peek 0
  match escapeTarget? c, escapeWidth? c with
  | some target, _ =>
    skip 1
    return [.char target]
  | none, some width =>
    skip 1
    let digits := (← get).rest.take width
    if digits.length < width || !digits.all (fun d => (Text.hexValue? d).isSome) then fail
    else
      let points ← escapedPoint (Text.hexValue digits)
      skip width
      return points
  | none, none =>
    if isBreak c then
      discard <| lineBreak
      return .ofChars (← quotedBreaks (← rounds))
    else fail

/-- The part of a quoted text up to the next gap or the closing mark. -/
def quotedWord (double : Bool) : Nat → Reader WideText
  | 0 => fail
  | fuel + 1 => do
    let run ← readWhile fun c =>
      !(c = '\'' || c = '"' || c = '\\' || isGapOrEnd c)
    let c ← peek 0
    if !double && c = '\'' && (← peek 1) = '\'' then
      skip 2
      return .ofChars (run ++ ['\'']) ++ (← quotedWord double fuel)
    else if (double && c = '\'') || (!double && (c = '"' || c = '\\')) then
      skip 1
      return .ofChars (run ++ [c]) ++ (← quotedWord double fuel)
    else if double && c = '\\' then
      let target ← escape
      return .ofChars run ++ target ++ (← quotedWord double fuel)
    else return .ofChars run

/-- The gaps and words of a quoted text up to the closing mark. -/
def quotedRest (double : Bool) (mark : Char) : Nat → Reader WideText
  | 0 => fail
  | fuel + 1 => do
    if (← peek 0) = mark then return []
    else
      let gap ← quotedGap
      let word ← quotedWord double (← rounds)
      return .ofChars gap ++ word ++ (← quotedRest double mark fuel)

/-- Text between quotation marks. -/
def quoted (double : Bool) : Reader WideText := do
  let mark := if double then '"' else '\''
  skip 1
  let word ← quotedWord double (← rounds)
  let more ← quotedRest double mark (← rounds)
  skip 1
  return word ++ more

/-- What happens to the line breaks at the end of a block. -/
inductive Chomping where
  | strip
  /-- The first one is kept. -/
  | clip
  | keep
  deriving DecidableEq

/-- The sign that sets the chomping. -/
def chomping? : Reader (Option Chomping) := do
  let c ← peek 0
  if c = '+' then
    skip 1
    return some .keep
  else if c = '-' then
    skip 1
    return some .strip
  else return none

/-- The digit that sets the indentation, which must not be zero. -/
def indentation? : Reader (Option Nat) := do
  let c ← peek 0
  if c = '0' then fail
  else if c.isDigit then
    skip 1
    return some (c.toNat - 48)
  else return none

/-- The header of a block, in which sign and digit may come in either order. -/
def blockHeader : Reader (Chomping × Option Nat) := do
  match ← chomping? with
  | some chomping => finish chomping (← indentation?)
  | none =>
    match ← indentation? with
    | some n => finish ((← chomping?).getD .clip) (some n)
    | none => finish .clip none
where
  finish (chomping : Chomping) (indentation : Option Nat) : Reader (Chomping × Option Nat) := do
    if !isSpaceOrEnd (← peek 0) then fail
    skipSpaces
    if (← peek 0) = '#' then skipLine
    if !isLineEnd (← peek 0) then fail
    discard lineBreak
    return (chomping, indentation)

/-- The empty lines at the start of a block, and the widest indentation in them. -/
def leadingBreaks : Nat → Nat → Reader (List Char × Nat)
  | 0, _ => fail
  | fuel + 1, widest => do
    let c ← peek 0
    if c = ' ' then
      skip 1
      leadingBreaks fuel (max widest (← get).column)
    else if isBreak c then
      let first ← lineBreak
      let (more, widest) ← leadingBreaks fuel widest
      return (first ++ more, widest)
    else return ([], widest)

/-- Spaces up to an indentation. -/
def indentTo (indent : Nat) : Reader Unit := do
  let c ← get
  skip ((c.rest.takeWhile (· = ' ')).take (indent - c.column)).length

/-- The empty lines inside a block. -/
def blockBreaks (indent : Nat) : Nat → Reader (List Char)
  | 0 => fail
  | fuel + 1 => do
    indentTo indent
    if isBreak (← peek 0) then
      let first ← lineBreak
      return first ++ (← blockBreaks indent fuel)
    else return []

/-- Whether a line of the block starts here. -/
def atBlockLine (indent : Nat) : Reader Bool := do
  return (← get).column = indent && (← peek 0) ≠ endMark

/-- The lines of a block, given the line breaks before the next line; yields the
text, the last line break and the empty lines after it. -/
def blockLines (folded : Bool) (indent : Nat) :
    Nat → List Char → Reader (List Char × List Char × List Char)
  | 0, _ => fail
  | fuel + 1, before => do
    let indented := isTabOrSpace (← peek 0)
    let line ← readWhile fun c => !isLineEnd c
    let last ← lineBreak
    let breaks ← blockBreaks indent (← rounds)
    if ← atBlockLine indent then
      -- A line break between two lines without further indentation is folded.
      let joint :=
        if folded && last = ['\n'] && !indented && !isTabOrSpace (← peek 0) then
          if breaks.isEmpty then [' '] else []
        else last
      let (text, last, after) ← blockLines folded indent fuel breaks
      return (before ++ line ++ joint ++ text, last, after)
    else return (before ++ line, last, breaks)

/-- A literal or folded block inside a block that is indented by `outer`. -/
def block (folded : Bool) (outer : Int) : Reader (List Char) := do
  skip 1
  let (chomping, indentation) ← blockHeader
  let least := (max (outer + 1) 1).toNat
  let (before, indent) ←
    match indentation with
    | none => do
      let (breaks, widest) ← leadingBreaks (← rounds) 0
      pure (breaks, max least widest)
    | some n => do
      let indent := least + n - 1
      pure (← blockBreaks indent (← rounds), indent)
  let (text, last, after) ←
    if ← atBlockLine indent then blockLines folded indent (← rounds) before
    else pure ([], [], before)
  let lastBreak := if chomping = .strip then [] else last
  let emptyLines := if chomping = .keep then after else []
  return text ++ lastBreak ++ emptyLines

/-- The empty lines inside a plain text, unless documents are separated there. -/
def plainBreaks : Nat → Reader (Option (List Char))
  | 0 => fail
  | fuel + 1 => do
    let c ← peek 0
    if c = ' ' then
      skip 1
      plainBreaks fuel
    else if isBreak c then
      let first ← lineBreak
      if ← atSeparator then return none
      else return (← plainBreaks fuel).map (first ++ ·)
    else return some []

/-- The gap after a word of a plain text, and whether it holds a line break. An empty
gap ends the text. -/
def plainGap : Reader (List Char × Bool) := do
  let gap ← readWhile (· = ' ')
  if isBreak (← peek 0) then
    let first ← lineBreak
    if ← atSeparator then return ([], true)
    else
      match ← plainBreaks (← rounds) with
      | none => return ([], true)
      | some more =>
        if first ≠ ['\n'] then return (first ++ more, true)
        else if more.isEmpty then return ([' '], true)
        else return (more, true)
  else return (gap, false)

/-- A character that stands between brackets for structure. -/
def isFlowIndicator (c : Char) : Bool :=
  c = ',' || c = '[' || c = ']' || c = '\x7b' || c = '\x7d'

/-- The length of the first word of a plain text. -/
def plainWordLength (inFlow : Bool) : List Char → Nat
  | [] => 0
  | c :: cs =>
    let after := cs.headD endMark
    if isGapOrEnd c then 0
    else if c = ':' && (isGapOrEnd after || (inFlow && isFlowIndicator after)) then 0
    else if inFlow && (c = '?' || isFlowIndicator c) then 0
    else plainWordLength inFlow cs + 1

/-- The words and gaps of a plain text, given the gap before the next word; also
whether a line break follows the last word. -/
def plainWords (inFlow : Bool) (indent : Int) : Nat → List Char → Reader (List Char × Option Bool)
  | 0, _ => fail
  | fuel + 1, before => do
    let cursor ← get
    let length := plainWordLength inFlow cursor.rest
    if cursor.peek 0 = '#' || length = 0 then return ([], none)
    else
      let word := cursor.rest.take length
      skip length
      let (gap, broken) ← plainGap
      let column : Int := (← get).column
      if gap.isEmpty || (← peek 0) = '#' || (!inFlow && column < indent) then
        return (before ++ word, some broken)
      else
        let (text, state) ← plainWords inFlow indent fuel gap
        return (before ++ word ++ text, some (state.getD broken))

/-- Text without marks inside a block that is indented by `outer`; also whether a line
break follows it. -/
def plain (inFlow : Bool) (outer : Int) : Reader (List Char × Bool) := do
  let (text, broken) ← plainWords inFlow (outer + 1) (← rounds) []
  return (text, broken.getD false)

end StreamTypes.Yaml.Reader
