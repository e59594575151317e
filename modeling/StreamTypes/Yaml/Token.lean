import StreamTypes.Yaml.Tag
import StreamTypes.Yaml.Text

/-!
# Tokens of a YAML document

A document is cut into tokens, some of which are not written: indentation opens
and closes blocks, and a word becomes a key when a colon follows it on the same
line. So a place where a key may start is remembered until it is clear whether it
is one, and the token for the key is put there afterwards. Tokens in front of all
such places are settled: they are what they are, whatever is wrong behind them.

## Main definitions

- `Token` — the tokens
- `TokenRow` — settled tokens, and what is wrong behind them
- `TokenRow.ofText` — the tokens of a text
-/

namespace StreamTypes.Yaml

/-- A token. -/
inductive Token where
  | streamEnd
  | directive (value : Directive)
  | documentStart
  | documentEnd
  | blockSequenceStart
  | blockMappingStart
  | blockEnd
  | flowSequenceStart
  | flowSequenceEnd
  | flowMappingStart
  | flowMappingEnd
  | key
  | value
  | blockEntry
  | flowEntry
  | alias (name : String)
  | anchor (name : String)
  | tag (name : TagName)
  | scalar (text : WideText) (plain : Bool)
  deriving DecidableEq, Repr

/-- A place where a key may have started. -/
structure KeyPlace where
  /-- The number of tokens before the place. -/
  token : Nat
  /-- Whether nothing but a key may stand there. -/
  required : Bool
  index : Nat
  line : Nat
  column : Nat

/-- How far a document has been cut. -/
structure Lexer where
  cursor : Cursor
  flow : Nat := 0
  indent : Int := -1
  /-- The indentations of the blocks around the innermost one. -/
  indents : List Int := []
  /-- Whether a key may start here. -/
  keyAllowed : Bool := true
  /-- The latest place for a key inside each number of open brackets. -/
  places : List (Nat × KeyPlace) := []
  /-- The tokens so far, the latest first. -/
  tokens : List Token := []
  count : Nat := 0

namespace Lexer

/-- Whether a place is too far back for a key. -/
def isStale (s : Lexer) (p : KeyPlace) : Bool :=
  p.line ≠ s.cursor.line || 1024 < s.cursor.index - p.index

/-- The number of tokens in front of which no other token can be put any more. -/
def settled (s : Lexer) : Nat :=
  (s.places.filter fun p => !s.isStale p.2).foldl (fun n p => min n p.2.token) s.count

end Lexer

/-- Cuts part of a document, or fails. -/
abbrev Cutter : Type → Type :=
  StateT Lexer (Except Failure)

namespace Cutter

/-- The text is not a document. -/
def fail {α : Type} : Cutter α :=
  throw .malformed

/-- Reads part of the text. -/
def read {α : Type} (r : Reader α) : Cutter α := do
  let s ← get
  match r.run s.cursor with
  | .error e => throw e
  | .ok (value, cursor) =>
    set { s with cursor := cursor }
    return value

/-- Adds a token. -/
def emit (token : Token) : Cutter Unit :=
  modify fun s => { s with tokens := token :: s.tokens, count := s.count + 1 }

/-- Puts a token in front of the one with the given number. -/
def emitAt (place : Nat) (token : Token) : Cutter Unit :=
  modify fun s =>
    let later := s.count - place
    { s with
      tokens := s.tokens.take later ++ token :: s.tokens.drop later
      count := s.count + 1 }

/-- Sets whether a key may start here. -/
def allowKey (allowed : Bool) : Cutter Unit :=
  modify fun s => { s with keyAllowed := allowed }

/-- Reads `k` characters and adds a token for them. -/
def mark (k : Nat) (token : Token) : Cutter Unit := do
  read (Reader.skip k)
  emit token

/-- Drops the places that are too far back for a key. -/
def dropStale : Cutter Unit := do
  let s ← get
  if s.places.any fun p => s.isStale p.2 && p.2.required then fail
  set { s with places := s.places.filter fun p => !s.isStale p.2 }

/-- Drops the place inside the present brackets. -/
def dropPlace : Cutter Unit := do
  let s ← get
  if s.places.any fun p => p.1 = s.flow && p.2.required then fail
  set { s with places := s.places.filter fun p => p.1 ≠ s.flow }

/-- Remembers that a key may start here. -/
def notePlace : Cutter Unit := do
  let s ← get
  if s.keyAllowed then
    let required := s.flow = 0 && s.indent = s.cursor.column
    dropPlace
    modify fun s =>
      let place : KeyPlace :=
        ⟨s.count, required, s.cursor.index, s.cursor.line, s.cursor.column⟩
      { s with places := (s.flow, place) :: s.places }

/-- The indentation left when all blocks beyond a column are closed, and how many
blocks that closes. -/
def closedBlocks (column : Int) : Int → List Int → Int × List Int × Nat
  | indent, [] => (indent, [], 0)
  | indent, outer :: indents =>
    if column < indent then
      let (indent, indents, n) := closedBlocks column outer indents
      (indent, indents, n + 1)
    else (indent, outer :: indents, 0)

/-- Closes the blocks that are indented beyond a column. -/
def closeBlocks (column : Int) : Cutter Unit :=
  modify fun s =>
    if s.flow ≠ 0 then s
    else
      let (indent, indents, n) := closedBlocks column s.indent s.indents
      { s with
        indent := indent
        indents := indents
        tokens := List.replicate n Token.blockEnd ++ s.tokens
        count := s.count + n }

/-- Opens a block at a column, unless it is already open. -/
def openBlock (column : Nat) : Cutter Bool := do
  let s ← get
  if s.indent < column then
    set { s with indent := column, indents := s.indent :: s.indents }
    return true
  else return false

/-- Reads spaces, comments and line breaks. -/
def skipGaps : Nat → Cutter Unit
  | 0 => fail
  | fuel + 1 => do
    read Reader.skipSpaces
    if (← read (Reader.peek 0)) = '#' then read Reader.skipLine
    if isBreak (← read (Reader.peek 0)) then
      discard <| read Reader.lineBreak
      if (← get).flow = 0 then allowKey true
      skipGaps fuel

/-- A line that separates documents. -/
def separator (k : Nat) (token : Token) : Cutter Unit := do
  closeBlocks (-1)
  dropPlace
  allowKey false
  mark k token

/-- An opening bracket. -/
def openBracket (token : Token) : Cutter Unit := do
  notePlace
  modify fun s => { s with flow := s.flow + 1 }
  allowKey true
  mark 1 token

/-- A closing bracket. -/
def closeBracket (token : Token) : Cutter Unit := do
  if (← get).flow = 0 then fail
  dropPlace
  modify fun s => { s with flow := s.flow - 1 }
  allowKey false
  mark 1 token

/-- A comma between brackets. -/
def comma : Cutter Unit := do
  allowKey true
  dropPlace
  mark 1 .flowEntry

/-- Opens a block here, if there are no brackets around; a block may start only where
a key may. -/
def startBlock (token : Token) : Cutter Unit := do
  let s ← get
  if s.flow = 0 then
    if !s.keyAllowed then fail
    if ← openBlock s.cursor.column then emit token

/-- A dash before an entry. -/
def dash : Cutter Unit := do
  startBlock .blockSequenceStart
  allowKey true
  dropPlace
  mark 1 .blockEntry

/-- A question mark before a key. -/
def question : Cutter Unit := do
  startBlock .blockMappingStart
  allowKey ((← get).flow = 0)
  dropPlace
  mark 1 .key

/-- A colon before a value. If a key has started before it, the key gets its token. -/
def colon : Cutter Unit := do
  let s ← get
  match s.places.find? fun p => p.1 = s.flow with
  | some (_, place) =>
    -- The word before the colon was a key, and perhaps the first one of a mapping.
    set { s with places := s.places.filter fun p => p.1 ≠ s.flow }
    emitAt place.token .key
    if s.flow = 0 then
      if ← openBlock place.column then emitAt place.token .blockMappingStart
    allowKey false
  | none =>
    -- The value belongs to a key that is empty or follows a question mark.
    startBlock .blockMappingStart
    allowKey ((← get).flow = 0)
    dropPlace
  mark 1 .value

/-- Something that may be a key: an anchor, an alias, a tag or a scalar. -/
def item (r : Reader Token) : Cutter Unit := do
  notePlace
  allowKey false
  emit (← read r)

/-- A block of text, after which a key may start. -/
def block (folded : Bool) : Cutter Unit := do
  allowKey true
  dropPlace
  let text ← read (Reader.block folded (← get).indent)
  emit (.scalar (.ofChars text) false)

/-- A plain scalar; a key may start after it if its line has ended. -/
def plain : Cutter Unit := do
  notePlace
  let s ← get
  let (text, broken) ← read (Reader.plain (s.flow ≠ 0) s.indent)
  allowKey broken
  emit (.scalar (.ofChars text) true)

/-- Whether a plain scalar starts with the character `c`, followed by `after`. -/
def startsPlain (inFlow : Bool) (c after : Char) : Bool :=
  if c = '-' then !isGapOrEnd after
  else if c = '?' || c = ':' then !inFlow && !isGapOrEnd after
  else !(isGapOrEnd c || ",[]\x7b\x7d#&*!|>'\"%@\x60".toList.contains c)

/-- The next tokens; `false` at the end of the text. -/
def step : Cutter Bool := do
  skipGaps (← read Reader.rounds)
  dropStale
  closeBlocks (← get).cursor.column
  let s ← get
  let c := s.cursor.peek 0
  let after := s.cursor.peek 1
  let inFlow : Bool := s.flow ≠ 0
  let lineStart : Bool := s.cursor.column = 0
  let separates ← read Reader.atSeparator
  -- Marks that need the start of a line come first, then brackets, then signs before a
  -- blank, and plain text is what is left.
  if c = endMark then
    closeBlocks (-1)
    dropPlace
    emit .streamEnd
    return false
  else if c = '%' && lineStart then
    closeBlocks (-1)
    dropPlace
    allowKey false
    emit (.directive (← read Reader.directive))
  else if c = '-' && lineStart && separates then separator 3 .documentStart
  else if c = '.' && lineStart && separates then separator 3 .documentEnd
  else if c = '[' then openBracket .flowSequenceStart
  else if c = '\x7b' then openBracket .flowMappingStart
  else if c = ']' then closeBracket .flowSequenceEnd
  else if c = '\x7d' then closeBracket .flowMappingEnd
  else if c = ',' then comma
  else if c = '-' && isGapOrEnd after then dash
  else if c = '?' && (inFlow || isGapOrEnd after) then question
  else if c = ':' && (inFlow || isGapOrEnd after) then colon
  else if c = '*' then item (Token.alias <$> Reader.name)
  else if c = '&' then item (Token.anchor <$> Reader.name)
  else if c = '!' then item (Token.tag <$> Reader.tag)
  else if c = '|' && !inFlow then block false
  else if c = '>' && !inFlow then block true
  else if c = '\'' then item ((Token.scalar · false) <$> Reader.quoted false)
  else if c = '"' then item ((Token.scalar · false) <$> Reader.quoted true)
  else if startsPlain inFlow c after then plain
  else fail
  return true

end Cutter

/-- Settled tokens of a text. -/
structure TokenRow where
  tokens : List Token
  /-- What is wrong behind the tokens. The text may end there, where nothing else is wrong than
  to ask for more. -/
  fault : Failure

namespace TokenRow

/-- The tokens up to the end of the text, or up to the first thing that is none. -/
def ofLexer (s : Lexer) : Nat → TokenRow
  | 0 => ⟨[], .malformed⟩
  | fuel + 1 =>
    match Cutter.step.run s with
    | .ok (true, next) => ofLexer next fuel
    | .ok (false, last) => ⟨last.tokens.reverse, .malformed⟩
    | .error fault => ⟨s.tokens.reverse.take s.settled, fault⟩

/-- The tokens of a text, which may begin with a byte order mark. -/
def ofText (text : String) : TokenRow :=
  let chars := text.toList
  if chars.all isAllowed then
    let start : Cursor := { rest := chars }
    let start := if (start.peek 0).toNat = 0xFEFF then start.next else start
    ofLexer ⟨start, 0, -1, [], true, [], [], 0⟩ (chars.length + 2)
  else ⟨[], .malformed⟩

end TokenRow

end StreamTypes.Yaml
