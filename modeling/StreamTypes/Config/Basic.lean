import StreamTypes.Dot
import StreamTypes.Peg.Error

/-!
# Settings

What a configuration file may set: how deep expressions may nest, and how graphs
are drawn.
-/

namespace StreamTypes

/-- The settings. -/
structure Config where
  /-- How many forms may be nested in an expression. -/
  maxDepth : Int := Peg.defaultMaxDepth
  render : DotOptions := {}
  deriving DecidableEq, Repr

end StreamTypes
