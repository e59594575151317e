import StreamTypes.Graph.Basic
import StreamTypes.Text.Quoted

/-!
# Graphs in the DOT language

A graph as the text of a Graphviz `digraph`. Declarations and clusters come first,
in the order of the graph, and all edges follow. The names that settings give may hold
surrogates, and so may the text.

## Main definitions

- `RankDir` — the layout directions
- `DotOptions`, `DotOptions.ofNames?` — the presentation settings
- `Graph.dot` — the text of a graph
-/

namespace StreamTypes

/-- The layout directions. -/
inductive RankDir where
  | topBottom
  | leftRight
  | bottomTop
  | rightLeft
  deriving DecidableEq, Repr

namespace RankDir

/-- The name of a direction. -/
def name : RankDir → String
  | .topBottom => "TB"
  | .leftRight => "LR"
  | .bottomTop => "BT"
  | .rightLeft => "RL"

/-- All directions. -/
def all : List RankDir :=
  [.topBottom, .leftRight, .bottomTop, .rightLeft]

/-- The direction with a name. -/
def ofName? (name : WideText) : Option RankDir :=
  all.find? fun d => .ofString d.name = name

/-- What is wrong with a name that belongs to no direction. -/
def complaint (given : WideText) : String :=
  "must be one of " ++ String.intercalate ", " (all.map name) ++ ", got " ++
    Text.quotedWide given

end RankDir

/-- The presentation settings of a drawing. -/
structure DotOptions where
  graphName : WideText := .ofString "river"
  rankdir : RankDir := .topBottom
  fontname : WideText := .ofString "Helvetica"
  /-- Whether cluster boundaries are drawn; what they enclose is drawn anyway. -/
  clusters : Bool := true
  deriving DecidableEq, Repr

/-- The presentation settings with a name as the direction; the name is given back if it
belongs to no direction. -/
def DotOptions.ofNames? (graphName rankdir fontname : WideText) (clusters : Bool) :
    Except WideText DotOptions :=
  match RankDir.ofName? rankdir with
  | none => .error rankdir
  | some direction => .ok ⟨graphName, direction, fontname, clusters⟩

namespace Dot

open WideText (ofString)

/-- A code point inside a DOT string. -/
def escapedPoint (c : CodePoint) : WideText :=
  if c = .char '"' || c = .char '\\' then [.char '\\', c] else [c]

/-- A DOT string. -/
def literal (t : WideText) : WideText :=
  .char '"' :: t.flatMap escapedPoint ++ [.char '"']

/-- The blanks before a declaration inside `level` brackets. -/
def pad (level : Nat) : WideText :=
  List.replicate (2 * level) (.char ' ')

/-- The line that declares a node, without the blanks before it. -/
def nodeLine (decl : NodeDecl) : WideText :=
  ofString decl.id ++ ofString " [label=" ++ literal (ofString decl.label) ++
    ofString ", fillcolor=" ++ literal (ofString decl.color) ++ ofString "];"

/-- The line for an edge. -/
def edgeLine (edge : String × String) : WideText :=
  ofString ("  " ++ edge.1 ++ " -> " ++ edge.2 ++ ";")

mutual

/-- The lines for an item inside `level` brackets. -/
def itemLines (clusters : Bool) (level : Nat) : Item → List WideText
  | .node decl => [pad level ++ nodeLine decl]
  | .cluster decl items =>
    if clusters then
      [pad level ++ ofString ("subgraph " ++ decl.id ++ " \x7b"),
        pad level ++ ofString "  label=" ++ literal (ofString decl.label) ++ ofString ";",
        pad level ++ ofString "  style=dashed;"] ++
        itemsLines clusters (level + 1) items ++ [pad level ++ ofString "\x7d"]
    else itemsLines clusters level items

/-- The lines for a list of items inside `level` brackets. -/
def itemsLines (clusters : Bool) (level : Nat) : List Item → List WideText
  | [] => []
  | item :: items => itemLines clusters level item ++ itemsLines clusters level items

end

/-- The lines of a text, each ended. -/
def unlines (lines : List WideText) : WideText :=
  lines.flatMap fun line => line ++ [.char '\n']

/-- The lines before all items. -/
def headLines (options : DotOptions) : List WideText :=
  let font := ofString ", fontname=" ++ literal options.fontname ++ ofString "];"
  [ofString "digraph " ++ literal options.graphName ++ ofString " \x7b",
    ofString ("  graph [rankdir=" ++ options.rankdir.name) ++ font,
    ofString "  node [shape=box, style=filled" ++ font]

end Dot

/-- The text of a graph in the DOT language. -/
def Graph.dot (g : Graph) (options : DotOptions := {}) : WideText :=
  Dot.unlines (Dot.headLines options ++ Dot.itemsLines options.clusters 1 g.items ++
    g.edges.map Dot.edgeLine ++ [.ofString "\x7d"])

end StreamTypes
