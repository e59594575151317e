import StreamTypes.Config.Basic
import StreamTypes.Render

/-!
# The playground

A page with a field for a River expression and two panels below it: one shows the
canonical text of the expression, the other its drawing. When the expression
cannot be read, the first panel says why and the second one is empty.

## Main definitions

- `Playground.evaluate` — what the panels show for an expression
- `Playground.page` — the page before anything is typed
-/

namespace StreamTypes.Playground

/-- What the two panels show. -/
structure Panels where
  /-- The canonical text, or an error message. -/
  ast : String
  dot : WideText
  deriving DecidableEq, Repr

/-- What the panels show for an expression. -/
def evaluate (expression : String) (config : Config := {}) (limit : Nat := Peg.defaultLimit) :
    Except River.ShapeError Panels :=
  match River.parseWithin limit (Text.trim expression) config.maxDepth with
  | .ok tree => .ok ⟨tree.text, tree.graph.dot config.render⟩
  | .error (.parse e) => .ok ⟨"Error: " ++ e.message, []⟩
  | .error (.shape e) => .error e

/-- What the panels show for the content of the field, which may be missing. -/
def respond (field : Option String) (config : Config := {}) (limit : Nat := Peg.defaultLimit) :
    Except River.ShapeError Panels :=
  evaluate (field.getD "") config limit

/-- A piece of a page. -/
inductive Element where
  | text (content : String)
  /-- An element with its properties, its style and what it encloses. -/
  | tag (name : String) (properties style : List (String × String)) (children : List Element)
  deriving Repr

/-- The title of the page. -/
def title : String :=
  "RiverType Playground"

/-- The content of the field before anything is typed. -/
def initialExpression : String :=
  "Bits<1>"

/-- The page before anything is typed. -/
def page : Element :=
  .tag "Div" [] [("fontFamily", "sans-serif"), ("padding", "2rem")] [
    .tag "H1" [] [] [.text title],
    .tag "Textarea" [("id", "expression-input"), ("value", initialExpression)]
      [("width", "100%"), ("height", "6rem"), ("fontFamily", "monospace")] [],
    .tag "Hr" [] [] [],
    .tag "H3" [] [] [.text "AST"],
    .tag "Pre" [("id", "ast-output")] [] [],
    .tag "H3" [] [] [.text "Graph (DOT)"],
    .tag "Pre" [("id", "dot-output")] [("color", "#333")] []]

end StreamTypes.Playground
