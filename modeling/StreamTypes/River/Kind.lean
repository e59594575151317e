/-!
# Kinds of River forms

A River expression is made of eight kinds of form. `Bits` is the leaf; five kinds
wrap one type and carry parameters; two kinds collect one or more types.

## Main definitions

- `Wrapper`, `Collection` — the kinds with one child and with a list of children
- `Kind` — all eight kinds
- `Kind.keyword` — how a kind is written
-/

namespace StreamTypes.River

/-- The kinds of form that wrap a single type. -/
inductive Wrapper where
  | root
  | dim
  | new
  | flat
  | rev
  deriving DecidableEq, Repr

/-- The kinds of form that collect one or more types. -/
inductive Collection where
  | group
  | union
  deriving DecidableEq, Repr

/-- The kinds of form. -/
inductive Kind where
  | bits
  | wrap (wrapper : Wrapper)
  | collect (collection : Collection)
  deriving DecidableEq, Repr

/-- The keyword of a wrapping form. -/
def Wrapper.keyword : Wrapper → String
  | .root => "Root"
  | .dim => "Dim"
  | .new => "New"
  | .flat => "Flat"
  | .rev => "Rev"

/-- The keyword of a collecting form. -/
def Collection.keyword : Collection → String
  | .group => "Group"
  | .union => "Union"

/-- The keyword of a form. -/
def Kind.keyword : Kind → String
  | .bits => "Bits"
  | .wrap wrapper => wrapper.keyword
  | .collect collection => collection.keyword

/-- All kinds. -/
def Kind.all : List Kind :=
  [.bits, .wrap .root, .collect .group, .wrap .dim, .wrap .new, .wrap .flat, .wrap .rev,
    .collect .union]

end StreamTypes.River
