import StreamTypes.Decimal.Shortest
import StreamTypes.Text.Digits
import StreamTypes.Text.Quoted
import StreamTypes.Yaml.Moment

/-!
# The values of YAML scalars

A scalar is nothing, a truth value, a number, a date, a text or a row of bytes. As the name
of a field it is shown as a text, and two scalars may be the same key although they are of
different types.

## Main definitions

- `Scalar` — the values of scalars
- `Scalar.display?` — how a scalar is shown
- `Scalar.sameKey` — whether two scalars are the same key of a mapping
-/

namespace StreamTypes.Yaml

open Decimal (Double)

/-- The values of scalars. -/
inductive Scalar where
  | null
  | bool (value : Bool)
  | int (value : Int)
  | float (value : Double)
  /-- Something that is not a number. No two are equal but for those of one node, or of no
  node in particular. -/
  | nan (node : Option Nat)
  | date (value : Date)
  | moment (value : Moment)
  | str (value : WideText)
  | binary (value : List UInt8)
  deriving DecidableEq, Repr

/-- How a byte is shown between two marks. -/
def byteText (mark : Char) (b : UInt8) : List Char :=
  let c := Char.ofNat b.toNat
  if c = mark || c = '\\' then ['\\', c]
  else if c = '\t' then ['\\', 't']
  else if c = '\n' then ['\\', 'n']
  else if c = '\r' then ['\\', 'r']
  else if 0x20 ≤ b.toNat && b.toNat < 0x7F then [c]
  else '\\' :: 'x' :: Text.hexDigits 2 b.toNat

/-- How bytes are shown. -/
def bytesText (bytes : List UInt8) : String :=
  let holds (c : Char) : Bool := bytes.contains (UInt8.ofNat c.toNat)
  let mark := if holds '\'' && !holds '"' then '"' else '\''
  String.ofList ('b' :: mark :: bytes.flatMap (byteText mark) ++ [mark])

/-- How a scalar is shown as the name of a field, unless it is a number with more digits
than are shown. -/
def Scalar.display? : Scalar → Option WideText
  | .null => some (.ofString "None")
  | .bool b => some (.ofString (if b then "True" else "False"))
  | .int n =>
    if Text.numeralLimit < (Nat.toDigits 10 n.natAbs).length then none
    else some (.ofString (toString n))
  | .float x => some (.ofString x.text)
  | .nan _ => some (.ofString "nan")
  | .date d => some (.ofString d.text)
  | .moment m => some (.ofString m.text)
  | .str s => some s
  | .binary bytes => some (.ofString (bytesText bytes))

/-- Whether a scalar is a text. -/
def Scalar.isText (text : String) : Scalar → Bool
  | .str s => s = .ofString text
  | _ => false

/-- A truth value as the number that it is equal to. -/
def Scalar.asNumber : Scalar → Scalar
  | .bool b => .int (if b then 1 else 0)
  | s => s

/-- Whether two scalars are the same key: numbers are compared by value, truth values
count as one and zero, and moments are compared by time. -/
def Scalar.sameKey (a b : Scalar) : Bool :=
  match a.asNumber, b.asNumber with
  | .int n, .float x | .float x, .int n => x.isInt n
  | .float x, .float y => x.sameValue y
  | .moment x, .moment y => x.same y
  | a, b => a = b

end StreamTypes.Yaml
