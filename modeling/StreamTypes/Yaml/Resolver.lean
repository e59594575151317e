import StreamTypes.Text.Case
import StreamTypes.Text.Numeral
import StreamTypes.Yaml.MomentForm
import StreamTypes.Yaml.Scalar

/-!
# The meaning of YAML scalars

Which plain scalars are truth values, numbers, dates or nothing at all, after the
rules of YAML 1.1, and which value a scalar has. A scalar whose type is written may have
any text; then what is no value of the type is a fault.

## Main definitions

- `Tag` — the types of nodes
- `plainTag` — the type of a plain scalar
- `Scalar.ofText?` — the value of a scalar of a type
-/

namespace StreamTypes.Yaml

open Decimal (Double)

/-- The types of nodes. -/
inductive Tag where
  | null
  | bool
  | int
  | float
  | timestamp
  | str
  | binary
  | seq
  | map
  | set
  | orderedMap
  | pairs
  | merge
  | value
  /-- A type that has no values here. -/
  | unknown (name : String)
  deriving DecidableEq, Repr

/-- What the names of the common types begin with. -/
def commonTags : String :=
  "tag:yaml.org,2002:"

/-- The type with a full name. -/
def Tag.ofName (name : String) : Tag :=
  let common : List (String × Tag) :=
    [("null", .null), ("bool", .bool), ("int", .int), ("float", .float),
      ("timestamp", .timestamp), ("str", .str), ("binary", .binary), ("seq", .seq), ("map", .map),
      ("set", .set), ("omap", .orderedMap), ("pairs", .pairs), ("merge", .merge), ("value", .value)]
  match common.find? fun entry => commonTags ++ entry.1 = name with
  | some (_, tag) => tag
  | none => .unknown name

/-- The spellings of true and false. -/
def truthSpellings : List (String × Bool) :=
  [("yes", true), ("no", false), ("true", true), ("false", false), ("on", true), ("off", false)]

/-- A word in lower case, capitalized, or in upper case. -/
def isCasedAs (word : String) (s : String) : Bool :=
  s = word || s = word.capitalize || s = word.toUpper

/-- The rest after an optional sign. -/
def afterSign : List Char → List Char
  | '+' :: cs => cs
  | '-' :: cs => cs
  | cs => cs

/-- A digit or an underscore. -/
def isDigitOrGap (c : Char) : Bool :=
  c.isDigit || c = '_'

/-- Groups of one or two digits below sixty, each after a colon. -/
def isBaseSixty : List Char → Bool
  | [] => true
  | [':', d] => d.isDigit
  | ':' :: d :: ':' :: cs => d.isDigit && isBaseSixty (':' :: cs)
  | ':' :: d :: e :: cs => '0' ≤ d && d ≤ '5' && e.isDigit && isBaseSixty cs
  | _ => false

/-- The form of a whole number: binary, octal, decimal, hexadecimal or in groups below
sixty. -/
def isInt (cs : List Char) : Bool :=
  match afterSign cs with
  | [] => false
  | ['0'] => true
  | '0' :: 'b' :: ds => !ds.isEmpty && ds.all fun c => c = '0' || c = '1' || c = '_'
  | '0' :: 'x' :: ds => !ds.isEmpty && ds.all fun c => (Text.hexValue? c).isSome || c = '_'
  | '0' :: ds => ds.all fun c => ('0' ≤ c && c ≤ '7') || c = '_'
  | d :: ds =>
    d.isDigit && isBaseSixty (ds.dropWhile isDigitOrGap)

/-- The exponent of a number, or nothing. -/
def isExponent : List Char → Bool
  | [] => true
  | e :: sign :: ds =>
    (e = 'e' || e = 'E') && (sign = '+' || sign = '-') && !ds.isEmpty && ds.all Char.isDigit
  | _ => false

/-- The form of a number with a point. -/
def isFloat (cs : List Char) : Bool :=
  let body := afterSign cs
  let signed := body.length < cs.length
  match body with
  | '.' :: rest =>
    let word := String.ofList rest
    word = "inf" || word = "Inf" || word = "INF" ||
      (!signed && (word = "nan" || word = "NaN" || word = "NAN" ||
        (rest.head?.any Char.isDigit && isExponent (rest.dropWhile isDigitOrGap))))
  | d :: rest =>
    let afterWhole := rest.dropWhile isDigitOrGap
    d.isDigit &&
      match afterWhole with
      | '.' :: part => isExponent (part.dropWhile isDigitOrGap)
      | ':' :: _ =>
        let groups := afterWhole.takeWhile (· ≠ '.')
        let part := afterWhole.dropWhile (· ≠ '.')
        isBaseSixty groups && !part.isEmpty && (part.drop 1).all isDigitOrGap
      | _ => false
  | [] => false

/-- The form of a date with all its digits, or of a moment. -/
def isTimestamp (cs : List Char) : Bool :=
  match MomentForm.ofChars? cs with
  | some ⟨_, none⟩ => cs.length = 10
  | some ⟨_, some _⟩ => true
  | none => false

/-- The type of a scalar that is not empty, by its characters. -/
def wordTag (cs : List Char) : Tag :=
  let word := String.ofList cs
  if truthSpellings.any fun spelling => isCasedAs spelling.1 word then .bool
  else if isFloat cs then .float
  else if isInt cs then .int
  else if word = "<<" then .merge
  else if word = "~" || isCasedAs "null" word then .null
  else if isTimestamp cs then .timestamp
  else if word = "=" then .value
  else if word = "!" || word = "&" || word = "*" then .unknown (commonTags ++ "yaml")
  else .str

/-- The type of a plain scalar. A line break at its end does not count. -/
def plainTag (text : WideText) : Tag :=
  let cs := text.shown
  if cs.isEmpty then .null
  else wordTag (if cs.getLast? = some '\n' then cs.dropLast else cs)

/-- A fault of a value. -/
def valueless {α : Type} (fault : ValueFault) : Except Failure α :=
  .error (.value fault)

/-- A text without underscores. -/
def withoutGaps (text : WideText) : WideText :=
  text.filter (· ≠ .char '_')

/-- Whether a text begins with a minus sign, and the rest after a sign. -/
def signOf : WideText → Bool × WideText
  | .char '-' :: text => (true, text)
  | .char '+' :: text => (false, text)
  | text => (false, text)

/-- The parts of a text between colons. -/
def colonParts (text : WideText) : List WideText :=
  text.splitOn (.char ':')

/-- The whole number that a text is in a base. -/
def integer? (base : Nat) (text : WideText) : Except Failure Int :=
  match Text.readInteger? base text.shown with
  | .ok n => .ok n
  | .error .malformed => valueless (.notInteger base text)
  | .error (.tooLong digits) => valueless (.tooManyDigits digits)

/-- A whole number without its sign. -/
def unsignedInt? (text : WideText) : Except Failure Int :=
  match text with
  | [] => valueless .empty
  | [.char '0'] => .ok 0
  | .char '0' :: .char 'b' :: rest => integer? 2 rest
  | .char '0' :: .char 'x' :: rest => integer? 16 rest
  | .char '0' :: _ => integer? 8 text
  | _ =>
    if text.contains (.char ':') then do
      let parts ← (colonParts text).mapM (integer? 10)
      return parts.foldl (fun n part => 60 * n + part) 0
    else integer? 10 text

/-- The value of a whole number. -/
def intValue? (text : WideText) : Except Failure Int := do
  let (negative, rest) := signOf (withoutGaps text)
  let n ← unsignedInt? rest
  return if negative then -n else n

/-- The number with a point that a text is. -/
def decimal? (text : WideText) : Except Failure Double :=
  match Double.ofChars? text.shown with
  | some x => .ok x
  | none => valueless (.notDecimal text)

/-- The sum of some parts, where each is worth sixty times the one after it, given the
parts backwards and the unit of the first of them. -/
def sumOfParts (unit : Nat) (total : Double) : List Double → Except Failure Double
  | [] => .ok total
  | part :: parts =>
    match Double.ofNat? unit with
    | some u => sumOfParts (60 * unit) (total.add (part.mul u)) parts
    | none => valueless .unitSize

/-- A number with a point without its sign, in small letters. -/
def unsignedFloat? (text : WideText) : Except Failure Double :=
  if text.contains (.char ':') then do
    let parts ← (colonParts text).mapM decimal?
    sumOfParts 1 (.zero false) parts.reverse
  else decimal? text

/-- The value of a number with a point, which stands in a node. -/
def floatValue? (node : Nat) (text : WideText) : Except Failure Scalar := do
  let text := Text.toLower (withoutGaps text)
  if text.isEmpty then valueless .empty
  let (negative, rest) := signOf text
  if rest = .ofString ".nan" then return .nan none
  let x ← if rest = .ofString ".inf" then pure (Double.infinite false) else unsignedFloat? rest
  if x = .notANumber then return .nan (some node)
  else return .float (if negative then x.neg else x)

/-- The value of a truth value. -/
def truthValue? (text : WideText) : Except Failure Bool :=
  let text := Text.toLower text
  match truthSpellings.find? fun spelling => text = .ofString spelling.1 with
  | some (_, b) => .ok b
  | none => valueless (.notTruth text)

/-- The value of a date or a moment. -/
def momentValue? (text : WideText) : Except Failure Scalar :=
  let cs := text.shown
  match MomentForm.ofChars? (if cs.getLast? = some '\n' then cs.dropLast else cs) with
  | none => valueless .notMoment
  | some form =>
    match form.fault?, form.time with
    | some fault, _ => valueless fault
    | none, none => .ok (.date form.date)
    | none, some (clock, offset) => .ok (.moment ⟨form.date, clock, offset⟩)

/-- The value of a digit of base sixty-four. -/
def base64Value? (c : Char) : Option Nat :=
  let n := c.toNat
  if 'A' ≤ c && c ≤ 'Z' then some (n - 65)
  else if 'a' ≤ c && c ≤ 'z' then some (n - 71)
  else if c.isDigit then some (n + 4)
  else if c = '+' then some 62
  else if c = '/' then some 63
  else none

/-- The bytes of digits of base sixty-four, four of which give three bytes. So far,
`place` digits of a group are read, the last of which leaves `left`, and `pads` equals
signs after them; a group that they fill up is the last one. -/
def base64Bytes? (place left pads : Nat) : List Char → Option (List UInt8)
  | [] => if place = 0 then some [] else none
  | c :: cs =>
    if c = '=' then
      if place < 2 then base64Bytes? place left pads cs
      else if 3 ≤ place + pads then some []
      else base64Bytes? place left (pads + 1) cs
    else
      match base64Value? c with
      | none => base64Bytes? place left pads cs
      | some v =>
        let emit (byte next rest : Nat) : Option (List UInt8) :=
          (base64Bytes? next rest 0 cs).map (UInt8.ofNat byte :: ·)
        if place = 0 then base64Bytes? 1 v 0 cs
        else if place = 1 then emit (4 * left + v / 16) 2 (v % 16)
        else if place = 2 then emit (16 * left + v / 4) 3 (v % 4)
        else emit (64 * left + v) 0 0

/-- The bytes that a text encodes. -/
def binaryValue? (text : WideText) : Except Failure (List UInt8) :=
  if text.any fun point => 128 ≤ point.code then throw .malformed
  else
    match base64Bytes? 0 0 0 text.shown with
    | some bytes => return bytes
    | none => throw .malformed

/-- The value of a scalar of a type, which stands in a node. -/
def Scalar.ofText? (tag : Tag) (node : Nat) (text : WideText) : Except Failure Scalar :=
  match tag with
  | .null => .ok .null
  | .bool => .bool <$> truthValue? text
  | .int => .int <$> intValue? text
  | .float => floatValue? node text
  | .timestamp => momentValue? text
  | .str => .ok (.str text)
  | .binary => .binary <$> binaryValue? text
  | .seq | .map | .set | .orderedMap | .pairs | .merge | .value | .unknown _ => throw .malformed

end StreamTypes.Yaml
