import StreamTypes.Json
import StreamTypes.Model

/-!
# Data types

Types that describe the structure of data, independently of how it is streamed.

## Main definitions

- `Data` — data types
- `Data.prim?`, `Data.tuple?`, `Data.struct?`, `Data.variant?` — types from
  unchecked parts
- `Data.text` — the canonical way to write a type
- `Data.nesting` — how deep a type nests
- `Data.toJson` — a type as a JSON value
-/

namespace StreamTypes

/-- A data type. -/
inductive Data where
  | empty
  | prim (bits : Nat)
  | struct (first : Data) (rest : List Data)
  | tuple (element : Data) (count : Nat)
  | seq (element : Data)
  | variant (first : Data) (rest : List Data)
  deriving Repr, BEq, Inhabited

namespace Data

/-- A primitive from an unchecked number of bits. -/
def prim? (bits : Int) : Except ModelError Data :=
  match numberFault "bits" bits with
  | [] => .ok (.prim bits.toNat)
  | faults => .error ⟨.primitive, faults⟩

/-- A tuple from an unchecked number of repetitions. -/
def tuple? (element : Data) (count : Int) : Except ModelError Data :=
  match numberFault "count" count with
  | [] => .ok (.tuple element count.toNat)
  | faults => .error ⟨.tuple, faults⟩

/-- A struct from an unchecked list of fields. -/
def struct? : List Data → Except ModelError Data
  | first :: rest => .ok (.struct first rest)
  | [] => .error ⟨.struct, [("fields", .noMembers)]⟩

/-- A variant from an unchecked list of options. -/
def variant? : List Data → Except ModelError Data
  | first :: rest => .ok (.variant first rest)
  | [] => .error ⟨.variant, [("options", .noMembers)]⟩

mutual

/-- The canonical way to write a type. -/
def text : Data → String
  | .empty => "Empty"
  | .prim bits => "Prim<" ++ Nat.repr bits ++ ">"
  | .struct first rest => "Struct<" ++ text first ++ textOfRest rest ++ ">"
  | .tuple element count => "Tuple<" ++ text element ++ ", " ++ Nat.repr count ++ ">"
  | .seq element => "Seq<" ++ text element ++ ">"
  | .variant first rest => "Variant<" ++ text first ++ textOfRest rest ++ ">"

/-- The members of a type after the first one. -/
def textOfRest : List Data → String
  | [] => ""
  | data :: rest => ", " ++ text data ++ textOfRest rest

end

mutual

/-- The number of structs, tuples, sequences and variants that are nested inside
one another. -/
def nesting : Data → Nat
  | .empty | .prim _ => 0
  | .struct first rest | .variant first rest => 1 + max (nesting first) (nestingOfRest rest)
  | .tuple element _ | .seq element => 1 + nesting element

/-- The deepest nesting of any type in a list. -/
def nestingOfRest : List Data → Nat
  | [] => 0
  | data :: rest => max (nesting data) (nestingOfRest rest)

end

mutual

/-- A type as a JSON object. -/
def toJson : Data → Json
  | .empty => .obj [("kind", .str "empty")]
  | .prim bits => .obj [("kind", .str "prim"), ("bits", .nat bits)]
  | .struct first rest =>
    .obj [("kind", .str "struct"), ("fields", .arr (toJson first :: toJsonList rest))]
  | .tuple element count =>
    .obj [("kind", .str "tuple"), ("element", toJson element), ("count", .nat count)]
  | .seq element => .obj [("kind", .str "seq"), ("element", toJson element)]
  | .variant first rest =>
    .obj [("kind", .str "variant"), ("options", .arr (toJson first :: toJsonList rest))]

/-- Types as JSON objects. -/
def toJsonList : List Data → List Json
  | [] => []
  | data :: rest => toJson data :: toJsonList rest

end

end Data

end StreamTypes
