import StreamTypes.Yaml.Cursor

/-!
# Names, tags and directives in YAML

## Main definitions

- `TagName` — a tag as it is written: a handle and a suffix
- `Directive` — a line that begins with a percent sign
- `Reader.name`, `Reader.tag`, `Reader.directive` — reads each of them
-/

namespace StreamTypes.Yaml

/-- A tag as it is written. Without a handle, the suffix is the whole tag. -/
structure TagName where
  /-- The handle, which stands for the start of the tag. -/
  handle : Option String
  /-- What follows the handle. -/
  suffix : String
  deriving DecidableEq, Repr

/-- A line that begins with a percent sign. -/
inductive Directive where
  | version (major : Nat)
  | handle (handle start : String)
  | reserved
  deriving DecidableEq, Repr

namespace Reader

/-- A name of at least one character. -/
def nonemptyName : Reader String := do
  let name ← readWhile isNameChar
  if name.isEmpty then fail else return String.ofList name

/-- The name of an anchor or an alias. -/
def name : Reader String := do
  skip 1
  let name ← nonemptyName
  let c ← peek 0
  if isGapOrEnd c || "?:,]\x7d%@\x60".toList.contains c then return name else fail

/-- The characters of a tag. -/
def isTagChar (c : Char) : Bool :=
  c.isAlphanum || "-;/?:@&=+$,_.!~*'()[]".toList.contains c

/-- A row of bytes that are written with percent signs. -/
def percentBytes : Nat → Reader (List UInt8)
  | 0 => fail
  | fuel + 1 => do
    if (← peek 0) ≠ '%' then return []
    else
      match Text.hexValue? (← peek 1), Text.hexValue? (← peek 2) with
      | some a, some b =>
        skip 3
        return UInt8.ofNat (16 * a + b) :: (← percentBytes fuel)
      | _, _ => fail

/-- The rest of a tag, in which percent signs introduce encoded characters. -/
def tagText : Nat → Reader (List Char)
  | 0 => fail
  | fuel + 1 => do
    let run ← readWhile isTagChar
    if (← peek 0) ≠ '%' then return run
    else
      let bytes ← percentBytes (← rounds)
      match String.fromUTF8? ⟨bytes.toArray⟩ with
      | none => fail
      | some s => return run ++ s.toList ++ (← tagText fuel)

/-- A suffix of at least one character. -/
def tagSuffix : Reader String := do
  let text ← tagText (← rounds)
  if text.isEmpty then fail else return String.ofList text

/-- A handle: one exclamation mark, or a name between two. -/
def tagHandle : Reader String := do
  if (← peek 0) ≠ '!' then fail
  skip 1
  if (← peek 0) = ' ' then return "!"
  else
    let name ← readWhile isNameChar
    if (← peek 0) ≠ '!' then fail
    skip 1
    return "!" ++ String.ofList name ++ "!"

/-- A tag. -/
def tag : Reader TagName := do
  let c ← peek 1
  let tag ←
    if c = '<' then do
      skip 2
      let suffix ← tagSuffix
      if (← peek 0) ≠ '>' then fail
      skip 1
      pure (TagName.mk none suffix)
    else if isGapOrEnd c then do
      skip 1
      pure (TagName.mk none "!")
    else do
      let word := ((← get).rest.drop 1).takeWhile fun c => !isSpaceOrEnd c
      let handle ← if word.contains '!' then tagHandle else do
        skip 1
        pure "!"
      pure (TagName.mk (some handle) (← tagSuffix))
  if isSpaceOrEnd (← peek 0) then return tag else fail

/-- A number in a directive. -/
def versionNumber : Reader Nat := do
  let digits ← readWhile Char.isDigit
  if digits.isEmpty then fail
  else if Text.numeralLimit < digits.length then
    throw (.value (.tooManyDigits digits.length))
  else return Text.digitsValue digits

/-- What follows the name of a directive. -/
def directiveValue (name : String) : Reader Directive := do
  if name = "YAML" then
    skipSpaces
    let major ← versionNumber
    if (← peek 0) ≠ '.' then fail
    skip 1
    discard versionNumber
    if isSpaceOrEnd (← peek 0) then return .version major else fail
  else if name = "TAG" then
    skipSpaces
    let handle ← tagHandle
    if (← peek 0) ≠ ' ' then fail
    skipSpaces
    let start ← tagSuffix
    if isSpaceOrEnd (← peek 0) then return .handle handle start else fail
  else
    skipLine
    return .reserved

/-- A directive, up to the end of its line. -/
def directive : Reader Directive := do
  skip 1
  let name ← nonemptyName
  if !isSpaceOrEnd (← peek 0) then fail
  let value ← directiveValue name
  skipSpaces
  if (← peek 0) = '#' then skipLine
  if !isLineEnd (← peek 0) then fail
  discard lineBreak
  return value

end Reader

end StreamTypes.Yaml
