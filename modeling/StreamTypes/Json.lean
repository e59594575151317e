/-!
# JSON documents

The values that syntax trees are exported as, and two ways to write them: on one
line without any space, or indented by two spaces with one entry on each line.

## Main definitions

- `Json` — JSON values without fractions and booleans, which no tree needs
- `Json.compact` — the text on one line
- `Json.indented` — the text on many lines
-/

namespace StreamTypes

/-- A JSON value. Object fields keep their order. -/
inductive Json where
  | null
  | num (value : Int)
  | str (value : String)
  | arr (items : List Json)
  | obj (fields : List (String × Json))
  deriving Repr

namespace Json

/-- An unsigned number. -/
def nat (n : Nat) : Json :=
  .num n

/-- An unsigned number, or `null` where there is none. -/
def optNat : Option Nat → Json
  | none => .null
  | some n => .nat n

/-- The text of a character inside a JSON string. -/
def escapedChar (c : Char) : List Char :=
  if c = '"' then ['\\', '"']
  else if c = '\\' then ['\\', '\\']
  else if c = '\n' then ['\\', 'n']
  else if c = '\r' then ['\\', 'r']
  else if c = '\t' then ['\\', 't']
  else if c = '\x08' then ['\\', 'b']
  else if c = '\x0c' then ['\\', 'f']
  else if c.toNat < 0x20 then
    let digits := Nat.toDigits 16 c.toNat
    ['\\', 'u'] ++ List.replicate (4 - digits.length) '0' ++ digits
  else [c]

/-- A JSON string literal. -/
def literal (s : String) : String :=
  String.ofList ('"' :: s.toList.flatMap escapedChar ++ ['"'])

mutual

/-- The text of a value on one line. -/
def compact : Json → String
  | .null => "null"
  | .num n => toString n
  | .str s => literal s
  | .arr items => "[" ++ compactItems items ++ "]"
  | .obj fields => "\x7b" ++ compactFields fields ++ "\x7d"

/-- The items of an array, separated by commas. -/
def compactItems : List Json → String
  | [] => ""
  | [item] => compact item
  | item :: items => compact item ++ "," ++ compactItems items

/-- The fields of an object, separated by commas. -/
def compactFields : List (String × Json) → String
  | [] => ""
  | [(key, value)] => literal key ++ ":" ++ compact value
  | (key, value) :: fields => literal key ++ ":" ++ compact value ++ "," ++ compactFields fields

end

/-- The start of a line inside `level` brackets. -/
def newLine (level : Nat) : String :=
  "\n" ++ String.ofList (List.replicate (2 * level) ' ')

mutual

/-- The text of a value that stands inside `level` brackets, on many lines. -/
def indentedAt (level : Nat) : Json → String
  | .null => "null"
  | .num n => toString n
  | .str s => literal s
  | .arr [] => "[]"
  | .arr (item :: items) =>
    "[" ++ newLine (level + 1) ++ indentedAt (level + 1) item ++ indentedItems (level + 1) items ++
      newLine level ++ "]"
  | .obj [] => "\x7b\x7d"
  | .obj ((key, value) :: fields) =>
    "\x7b" ++ newLine (level + 1) ++ literal key ++ ": " ++ indentedAt (level + 1) value ++
      indentedFields (level + 1) fields ++ newLine level ++ "\x7d"

/-- The items of an array after the first one. -/
def indentedItems (level : Nat) : List Json → String
  | [] => ""
  | item :: items => "," ++ newLine level ++ indentedAt level item ++ indentedItems level items

/-- The fields of an object after the first one. -/
def indentedFields (level : Nat) : List (String × Json) → String
  | [] => ""
  | (key, value) :: fields =>
    "," ++ newLine level ++ literal key ++ ": " ++ indentedAt level value ++
      indentedFields level fields

end

/-- The text of a value, indented by two spaces for each bracket. -/
def indented (value : Json) : String :=
  indentedAt 0 value

end Json

end StreamTypes
