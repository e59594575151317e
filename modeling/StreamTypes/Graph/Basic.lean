import StreamTypes.River.Kind

/-!
# Graphs

A drawing of a River type: declarations of nodes, clusters that enclose other
declarations, and directed edges. The order of the declarations matters, since
later ones are drawn on top of earlier ones.

## Main definitions

- `Item` — a node, or a cluster of further items
- `Graph` — items and edges
- `Graph.nodes`, `Graph.clusters` — all declarations of one sort, in order
-/

namespace StreamTypes

open River (Kind)

/-- The declaration of a node. -/
structure NodeDecl where
  /-- The name of the node in the drawing. -/
  id : String
  label : String
  kind : Kind
  color : String
  deriving DecidableEq, Repr

/-- The declaration of a cluster, without what it encloses. -/
structure ClusterDecl where
  /-- The name of the cluster in the drawing. -/
  id : String
  /-- The text at the border of the cluster. -/
  label : String
  kind : Kind
  deriving DecidableEq, Repr

/-- A node, or a cluster of further items. -/
inductive Item where
  | node (decl : NodeDecl)
  | cluster (decl : ClusterDecl) (items : List Item)
  deriving Repr

/-- A drawing: its items in the order of declaration, and its edges. -/
structure Graph where
  items : List Item
  /-- The edges, each from the first to the second node. -/
  edges : List (String × String)
  deriving Repr

mutual

/-- The nodes of an item in the order of declaration. -/
def Item.nodes : Item → List NodeDecl
  | .node decl => [decl]
  | .cluster _ items => Item.nodesOf items

/-- The nodes of a list of items in the order of declaration. -/
def Item.nodesOf : List Item → List NodeDecl
  | [] => []
  | item :: items => Item.nodes item ++ Item.nodesOf items

end

mutual

/-- The clusters of an item in the order of declaration, outer ones first. -/
def Item.clusters : Item → List ClusterDecl
  | .node _ => []
  | .cluster decl items => decl :: Item.clustersOf items

/-- The clusters of a list of items in the order of declaration. -/
def Item.clustersOf : List Item → List ClusterDecl
  | [] => []
  | item :: items => Item.clusters item ++ Item.clustersOf items

end

namespace Graph

/-- All nodes in the order of declaration, wherever they are enclosed. -/
def nodes (g : Graph) : List NodeDecl :=
  Item.nodesOf g.items

/-- All clusters in the order of declaration, wherever they are enclosed. -/
def clusters (g : Graph) : List ClusterDecl :=
  Item.clustersOf g.items

/-- The same drawing without its clusters. -/
def flattened (g : Graph) : Graph :=
  ⟨g.nodes.map .node, g.edges⟩

end Graph

end StreamTypes
