/-!
# Checked numbers and lists

Type descriptions may come from outside, with any integers and any lists. Widths,
counts and parameters have to be natural numbers, and the lists of members must
not be empty. A description that breaks such a rule is refused with all fields
that break it, in the order in which the fields are declared.

## Main definitions

- `Fault` — what may be wrong with one field
- `ModelError` — the faults of one description
-/

namespace StreamTypes

/-- What may be wrong with one field of a description. -/
inductive Fault where
  | negative
  | noMembers
  deriving DecidableEq, Repr

/-- A short name of a fault. -/
def Fault.code : Fault → String
  | .negative => "greater_than_equal"
  | .noMembers => "too_short"

/-- A fault in words. -/
def Fault.message : Fault → String
  | .negative => "Input should be greater than or equal to 0"
  | .noMembers => "Tuple should have at least 1 item after validation, not 0"

/-- The kinds of description that have fields to check. -/
inductive Model where
  | bits
  | parameters
  | group
  | union
  | primitive
  | tuple
  | struct
  | variant
  deriving DecidableEq, Repr

/-- A refused description: its kind, and its faulty fields by name. -/
structure ModelError where
  model : Model
  /-- The faulty fields in the order of their declaration. -/
  faults : List (String × Fault)
  deriving DecidableEq, Repr

/-- The fault of a number that has to be natural. -/
def numberFault (field : String) (value : Int) : List (String × Fault) :=
  if value < 0 then [(field, .negative)] else []

/-- The fault of a number that has to be natural if it is given at all. -/
def optionalFault (field : String) : Option Int → List (String × Fault)
  | none => []
  | some value => numberFault field value

end StreamTypes
