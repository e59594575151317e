import StreamTypes.Data.Basic
import StreamTypes.Peg.Error

/-!
# The grammar of data types

    Data    := Struct | Tuple | Seq | Variant | Prim | Empty
    Struct  := "Struct" "<" Data ("," Data)* ">"      and so for Variant
    Tuple   := "Tuple" "<" Data "," Numeral ">"
    Seq     := "Seq" "<" Data ">"
    Prim    := "Prim" "<" Numeral ">"
    Empty   := "Empty"

Spaces and tabs may stand after a comma only. Forms other than `Prim` and `Empty`
count towards the depth bound.

## Main definitions

- `anyForm` — the grammar
- `parseWithin`, `parse` — reads a whole type
-/

namespace StreamTypes.Data

open Peg

/-- The rules that data types refer to. -/
inductive Rule : Type → Type where
  | data : Rule Data

section
variable {ν : Type} {ρ : Type → Type}

/-- Fields in a row. -/
def structForm (data : Parser ν ρ Data) : Parser ν ρ Data :=
  .map (fun v => .struct v.1 v.2) (.form "Struct" (.nested (.commaList data)))

/-- Repetitions of a type, and their number. -/
def tupleForm (data : Parser ν ρ Data) : Parser ν ρ Data :=
  .map (fun v => .tuple v.1 v.2.2) (.form "Tuple" (.nested (.both data (.both .comma .unsigned))))

/-- Any number of repetitions of a type. -/
def seqForm (data : Parser ν ρ Data) : Parser ν ρ Data :=
  .map .seq (.form "Seq" (.nested data))

/-- Options. -/
def variantForm (data : Parser ν ρ Data) : Parser ν ρ Data :=
  .map (fun v => .variant v.1 v.2) (.form "Variant" (.nested (.commaList data)))

/-- A primitive. -/
def primForm : Parser ν ρ Data :=
  .map .prim (.form "Prim" .unsigned)

/-- No data. -/
def emptyForm : Parser ν ρ Data :=
  .map (fun _ => .empty) (.literal "Empty")

/-- Any data type, inside which `data` reads the members. -/
def anyForm (data : Parser ν ρ Data) : Parser ν ρ Data :=
  .choice [structForm data, tupleForm data, seqForm data, variantForm data, primForm, emptyForm]

end

/-- The rules of data types, which store no nodes. -/
def rules : Rules Empty Rule
  | _, .data => anyForm (.ref .data)

/-- Reads a whole text as a data type, following at most `limit` nested references
to rules. -/
def parseWithin (limit : Nat) (source : String) (maxDepth : Int) : Except ParseError Data :=
  (Peg.run limit rules (.ref .data) (Input.ofString source maxDepth)).map Prod.fst

/-- Reads a whole text as a data type. -/
def parse (source : String) (maxDepth : Int := defaultMaxDepth) : Except ParseError Data :=
  parseWithin defaultLimit source maxDepth

end StreamTypes.Data
