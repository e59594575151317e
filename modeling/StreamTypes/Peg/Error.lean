import StreamTypes.Peg.Run

/-!
# Parse errors

A text that does not match is reported at the furthest position that any attempt
has reached, together with everything that would have been accepted there. A
text that nests too deeply is reported where the bound was first exceeded, or, if the
parser cannot follow it, at the furthest position that it has reached.

## Main definitions

- `ParseError` — why a text is rejected
- `ParseError.message` — the same in words
- `State.error` — the error that a state describes
- `run` — matches an expression against a whole text
-/

namespace StreamTypes.Peg

/-- Why a text is rejected. -/
inductive ParseError where
  /-- No continuation matches at `offset`, where the text goes on with `found`. -/
  | unexpected (offset : Nat) (expected : List String) (found : Option Char)
  /-- At `offset` the forms nest deeper than `bound` levels. -/
  | tooDeep (offset : Nat) (bound : Int)
  /-- The forms nest deeper than the parser can follow, which has come to `offset`. -/
  | exhausted (offset : Nat)
  deriving DecidableEq, Repr

namespace ParseError

/-- The position of the first character that could not be read. -/
def offset : ParseError → Nat
  | .unexpected offset _ _ | .tooDeep offset _ | .exhausted offset => offset

/-- What would have been accepted at that position. -/
def expected : ParseError → List String
  | .unexpected _ expected _ => expected
  | .tooDeep _ _ | .exhausted _ => []

/-- What is wrong, without the position. -/
def complaint : ParseError → String
  | .unexpected _ expected found =>
    let found := (found.map Text.quotedChar).getD "end of input"
    if expected.isEmpty then "Unexpected " ++ found
    else "Expected " ++ String.intercalate ", " expected ++ ", got " ++ found
  | .tooDeep _ bound => "Nesting deeper than " ++ toString bound ++ " levels"
  | .exhausted _ => "Nesting too deep to parse"

/-- What is wrong, and in which column. Columns are counted from one. -/
def message (e : ParseError) : String :=
  "Column " ++ Nat.repr (e.offset + 1) ++ ": " ++ e.complaint

/-- The part of the source that was not read. -/
def remainder (e : ParseError) (source : String) : String :=
  String.ofList (source.toList.drop e.offset)

end ParseError

/-- The error that a state describes: exceeding the depth bound comes first. -/
def State.error {ν : Type} (input : Input) (s : State ν) : ParseError :=
  match s.tooDeepAt with
  | some offset => .tooDeep offset input.maxDepth
  | none => .unexpected s.furthest s.listed input.text[s.furthest]?

/-- Matches an expression against the whole of a text. -/
def run {ν : Type} {ρ : Type → Type} {α : Type} (limit : Nat) (rules : Rules ν ρ)
    (p : Parser ν ρ α) (input : Input) : Except ParseError (α × State ν) :=
  match (p.terminated .endOfInput).evalWithin input rules limit {} 0 with
  | (.accepted value _, s) => .ok (value, s)
  | (.exhausted, s) => .error (.exhausted s.furthest)
  | (_, s) => .error (s.error input)

/-- How many references may be nested unless a caller says otherwise. -/
def defaultLimit : Nat := 1000

/-- How many forms may be nested unless a caller says otherwise. -/
def defaultMaxDepth : Int := 64

end StreamTypes.Peg
