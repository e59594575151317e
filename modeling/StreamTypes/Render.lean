import StreamTypes.Dot
import StreamTypes.Graph.Build
import StreamTypes.River.Grammar
import StreamTypes.Text.Blank

/-!
# From an expression to its drawing

The blanks around an expression are ignored; the rest is read as a River type,
whose graph is written in the DOT language.
-/

namespace StreamTypes

/-- The drawing of a River expression, in which at most `limit` references to rules are
followed into one another. -/
def render (source : String) (options : DotOptions := {})
    (maxDepth : Int := Peg.defaultMaxDepth) (limit : Nat := Peg.defaultLimit) :
    Except River.Rejection WideText :=
  match River.parseWithin limit (Text.trim source) maxDepth with
  | .error e => .error e
  | .ok tree => .ok (tree.graph.dot options)

end StreamTypes
