import StreamTypes.Json
import StreamTypes.Model

/-!
# Stream parameters

A wrapping form may carry up to three parameters: the number of elements in each
handshake, the complexity level, and the number of user bits. A parameter that is
not written stays apart from one that is written with its default.

## Main definitions

- `Params` — the three parameters, each written or not
- `Params.ofInts?` — parameters from integers that have to be natural
- `Params.resolved` — all parameters written out
- `Params.text` — the parameters as they are written in an expression
-/

namespace StreamTypes.River

/-- The parameters of a wrapping form; `none` stands for one that is not written. -/
structure Params where
  /-- The number of elements in each handshake. -/
  elements : Option Nat := none
  complexity : Option Nat := none
  userbits : Option Nat := none
  deriving DecidableEq, Repr, Inhabited

namespace Params

/-- Parameters from integers, which must not be negative. -/
def ofInts? (elements complexity userbits : Option Int) : Except ModelError Params :=
  let faults := optionalFault "elements" elements ++ optionalFault "complexity" complexity ++
    optionalFault "userbits" userbits
  if faults.isEmpty then
    .ok ⟨elements.map Int.toNat, complexity.map Int.toNat, userbits.map Int.toNat⟩
  else .error ⟨.parameters, faults⟩

/-- No parameter is written. -/
def isUnspecified (p : Params) : Bool :=
  p.elements.isNone && p.complexity.isNone && p.userbits.isNone

/-- The number of elements, which is one unless written. -/
def effectiveElements (p : Params) : Nat :=
  p.elements.getD 1

/-- The complexity level, which is zero unless written. -/
def effectiveComplexity (p : Params) : Nat :=
  p.complexity.getD 0

/-- The number of user bits, which is zero unless written. -/
def effectiveUserbits (p : Params) : Nat :=
  p.userbits.getD 0

/-- The parameters with every default written out. -/
def resolved (p : Params) : Params :=
  ⟨some p.effectiveElements, some p.effectiveComplexity, some p.effectiveUserbits⟩

/-- A field as it is written: empty when there is nothing to write. -/
def fieldText : Option Nat → String
  | none => ""
  | some n => Nat.repr n

/-- The parameters as they are written in an expression. Unwritten fields at the
end are left out. The number of elements has to stand before any other field, so
its default is written where only later fields are given. -/
def text : Params → String
  | ⟨none, none, none⟩ => ""
  | ⟨some n, none, none⟩ => Nat.repr n
  | ⟨elements, some c, none⟩ => Nat.repr (elements.getD 1) ++ ", " ++ Nat.repr c
  | ⟨elements, complexity, some u⟩ =>
    Nat.repr (elements.getD 1) ++ ", " ++ fieldText complexity ++ ", " ++ Nat.repr u

/-- The parameters as a JSON object. -/
def toJson (p : Params) : Json :=
  .obj [("elements", .optNat p.elements), ("complexity", .optNat p.complexity),
    ("userbits", .optNat p.userbits)]

end Params

end StreamTypes.River
