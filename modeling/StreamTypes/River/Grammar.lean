import StreamTypes.Peg.Error
import StreamTypes.River.Tree

/-!
# The grammar of River expressions

    River  := Union | Rev | Flat | New | Dim | Group | Root | Bits
    Bits   := "Bits" "<" Numeral ">"
    Root   := "Root" "<" River ("," Params)? ">"      and so for Dim, New, Flat, Rev
    Group  := "Group" "<" River ("," River)* ">"      and so for Union
    Params := Numeral ("," Numeral?)? ("," Numeral?)?

Keywords are case-sensitive, and spaces and tabs may stand after a comma only.
Forms other than `Bits` count towards the depth bound. Every form stores its node
once it is complete, so children are stored before their parents.

## Main definitions

- `params`, `anyForm` — the grammar
- `parseWithin`, `parse` — reads a whole expression
-/

namespace StreamTypes.River

open Peg

/-- The rules that River expressions refer to. -/
inductive Rule : Type → Type where
  /-- Any River form; its value is the index of its node. -/
  | river : Rule Nat

section
variable {ν : Type} {ρ : Type → Type}

/-- A comma and the parameter that may follow it. -/
def laterParam : Parser ν ρ (Option Nat) :=
  .map Option.join (.opt (.preceded .comma (.opt .unsigned)))

/-- Up to three parameters, or none if there is no numeral to begin with. -/
def params : Parser ν ρ Params :=
  .map (fun
    | none => {}
    | some (elements, complexity, userbits) => ⟨some elements, complexity, userbits⟩)
    (.opt (.both .unsigned (.both laterParam laterParam)))

/-- A leaf; `store` turns a node into what the arena holds. -/
def bitsForm (store : Node Nat → ν) : Parser ν ρ Nat :=
  .alloc (fun width => store (.bits width)) (.form Kind.bits.keyword .unsigned)

/-- A form that wraps a single type, which `river` reads. -/
def wrapForm (store : Node Nat → ν) (river : Parser ν ρ Nat) (wrapper : Wrapper) :
    Parser ν ρ Nat :=
  .alloc (fun v => store (.wrap wrapper v.1 (v.2.getD {})))
    (.form wrapper.keyword (.nested (.both river (.opt (.preceded .comma params)))))

/-- A form that collects types, each of which `river` reads. -/
def collectForm (store : Node Nat → ν) (river : Parser ν ρ Nat) (collection : Collection) :
    Parser ν ρ Nat :=
  .alloc (fun v => store (.collect collection v.1 v.2))
    (.form collection.keyword (.nested (.commaList river)))

/-- Any form, inside which `river` reads the members. -/
def anyForm (store : Node Nat → ν) (river : Parser ν ρ Nat) : Parser ν ρ Nat :=
  .choice [
    collectForm store river .union,
    wrapForm store river .rev,
    wrapForm store river .flat,
    wrapForm store river .new,
    wrapForm store river .dim,
    collectForm store river .group,
    wrapForm store river .root,
    bitsForm store]

end

/-- The rules of River expressions whose nodes are stored as they are. -/
def rules : Rules (Node Nat) Rule
  | _, .river => anyForm id (.ref .river)

/-- Why a text does not give a tree. -/
inductive Rejection where
  | parse (error : ParseError)
  | shape (error : ShapeError)
  deriving DecidableEq, Repr

/-- Reads a whole text as a River expression, following at most `limit` nested
references to rules. -/
def parseWithin (limit : Nat) (source : String) (maxDepth : Int) : Except Rejection Tree :=
  match Peg.run limit rules (.ref .river) (Input.ofString source maxDepth) with
  | .error e => .error (.parse e)
  | .ok (root, s) =>
    match Tree.ofNodes? (s.arena.toList.map (Node.map Int.ofNat)) root with
    | .error e => .error (.shape e)
    | .ok tree => .ok tree

/-- Reads a whole text as a River expression. -/
def parse (source : String) (maxDepth : Int := defaultMaxDepth) : Except Rejection Tree :=
  parseWithin defaultLimit source maxDepth

end StreamTypes.River
