import StreamTypes.Graph.Basic
import StreamTypes.River.Tree

/-!
# The graph of a River type

Every form becomes a node, labelled with its keyword and all its parameters, and
every reference to a child becomes an edge. A form of kind `Root`, `Dim`, `New` or
`Rev` encloses what is below it in a cluster, which follows its own node.

Nodes are declared from the root downwards, children in order, except that the
`New` children of a `Group` or `Union` come after all their siblings: their
clusters are then drawn on top. Edges follow the walk through the tree.

## Main definitions

- `Palette` — the colors of the kinds, which may be incomplete
- `Graph.ofTree` — the graph of a tree
- `MissingColor` — the only way in which a tree may fail to have one
- `River.Tree.graph` — the graph of a tree in all colors

## Main statements

- `Graph.ofTree_full` — with all colors, every tree has a graph
-/

namespace StreamTypes

open River (Kind Node Params Tree Wrapper Collection)

/-- A color for each kind of form, as far as there is one. -/
abbrev Palette : Type :=
  Kind → Option String

/-- The color of each kind of form. -/
def Palette.full : Palette
  | .bits => some "#e8e8e8"
  | .wrap .root => some "#a6cee3"
  | .collect .group => some "#b2df8a"
  | .wrap .dim => some "#fdbf6f"
  | .wrap .new => some "#cab2d6"
  | .wrap .flat => some "#ffff99"
  | .wrap .rev => some "#fb9a99"
  | .collect .union => some "#8dd3c7"

/-- The palette without the colors of some kinds. -/
def Palette.without (palette : Palette) (kinds : List Kind) : Palette := fun kind =>
  if kinds.contains kind then none else palette kind

/-- A kind of form has no color. -/
structure MissingColor where
  kind : Kind
  deriving DecidableEq, Repr

/-- A missing color in words. -/
def MissingColor.message (e : MissingColor) : String :=
  let keyword := e.kind.keyword
  "No fill color for variant <RiverKind." ++ keyword.toUpper ++ ": '" ++ keyword ++ "'>"

/-- Whether a kind of form encloses its child in a cluster. -/
def opensCluster : Kind → Bool
  | .wrap .root | .wrap .dim | .wrap .new | .wrap .rev => true
  | .wrap .flat | .collect _ | .bits => false

/-- The name of the node with an index. -/
def nodeId (index : Nat) : String :=
  "n" ++ Nat.repr index

/-- The name of the cluster below the node with an index. -/
def clusterId (index : Nat) : String :=
  "cluster_" ++ Nat.repr index

/-- The parameters inside a label, with their defaults. -/
def paramsLabel (params : Params) : String :=
  "N=" ++ Nat.repr params.effectiveElements ++ ",C=" ++ Nat.repr params.effectiveComplexity ++
    ",U=" ++ Nat.repr params.effectiveUserbits

/-- The text inside a node. -/
def nodeLabel {ι : Type} : Node ι → String
  | .bits width => "Bits<" ++ Nat.repr width ++ ">"
  | .wrap wrapper _ params => wrapper.keyword ++ "<" ++ paramsLabel params ++ ">"
  | .collect collection _ _ => collection.keyword

/-- The declarations for a form and all that is below it. -/
structure Emission where
  kind : Kind
  /-- The declarations, or the first kind for which there is no color. -/
  items : Except MissingColor (List Item)

instance : Inhabited Emission := ⟨⟨.bits, .ok []⟩⟩

/-- The members of a list with the `New` forms moved behind all others. -/
def newLast (members : List Emission) : List Emission :=
  members.filter (fun e => e.kind != .wrap .new) ++ members.filter (fun e => e.kind == .wrap .new)

/-- The declarations of all members of a list, in order. -/
def emitAll : List Emission → Except MissingColor (List Item)
  | [] => .ok []
  | member :: members =>
    match member.items with
    | .error e => .error e
    | .ok items =>
      match emitAll members with
      | .error e => .error e
      | .ok rest => .ok (items ++ rest)

/-- The declarations for a form, given those for its children. -/
def emit (palette : Palette) (index : Nat) (node : Node Emission) : Emission where
  kind := node.kind
  items :=
    match palette node.kind with
    | none => .error ⟨node.kind⟩
    | some color =>
      let own : Item := .node ⟨nodeId index, nodeLabel node, node.kind, color⟩
      if opensCluster node.kind then
        (emitAll node.children).map fun items =>
          [own, .cluster ⟨clusterId index, node.kind.keyword, node.kind⟩ items]
      else
        (emitAll (newLast node.children)).map fun items => own :: items

/-- The edges from the nodes on a walk to their children. -/
def edgesAlong (nodes : Array (Node Nat)) (walk : List Nat) : List (String × String) :=
  walk.flatMap fun index =>
    ((nodes[index]?.map Node.children).getD []).map fun child => (nodeId index, nodeId child)

/-- The graph of a tree with the colors of a palette. -/
def Graph.ofTree (palette : Palette) (t : Tree) : Except MissingColor Graph :=
  (t.fold (emit palette)).items.map fun items => ⟨items, edgesAlong t.nodes.toArray t.walk⟩

theorem emitAll_ok {members : List Emission} (h : ∀ m ∈ members, ∃ items, m.items = .ok items) :
    ∃ items, emitAll members = .ok items := by
  induction members with
  | nil => exact ⟨[], rfl⟩
  | cons member members ih =>
    obtain ⟨items, hitems⟩ := h member (by simp)
    obtain ⟨rest, hrest⟩ := ih fun m hm => h m (by simp [hm])
    exact ⟨items ++ rest, by simp [emitAll, hitems, hrest]⟩

theorem Palette.full_eq_some (kind : Kind) : ∃ color, Palette.full kind = some color := by
  rcases kind with _ | (_ | _ | _ | _ | _) | (_ | _) <;> exact ⟨_, rfl⟩

/-- With all colors, a form can be declared if all that is below it can be. -/
theorem emit_full_ok {index : Nat} {node : Node Emission}
    (h : ∀ m ∈ node.children, ∃ items, m.items = .ok items) :
    ∃ items, (emit Palette.full index node).items = .ok items := by
  obtain ⟨color, hcolor⟩ := Palette.full_eq_some node.kind
  obtain ⟨inOrder, hinOrder⟩ := emitAll_ok h
  -- Moving the `New` forms behind the others adds no member.
  have hnew : ∀ m ∈ newLast node.children, ∃ items, m.items = .ok items := by
    intro m hm
    simp only [newLast, List.mem_append, List.mem_filter] at hm
    rcases hm with hm | hm <;> exact h m hm.1
  obtain ⟨moved, hmoved⟩ := emitAll_ok hnew
  simp only [emit, hcolor]
  split
  · exact ⟨_, by rw [hinOrder]; rfl⟩
  · exact ⟨_, by rw [hmoved]; rfl⟩

/-- Every tree has a graph in all colors. -/
theorem Graph.ofTree_full (t : Tree) : ∃ g, Graph.ofTree Palette.full t = .ok g := by
  obtain ⟨items, hitems⟩ : ∃ items, (t.fold (emit Palette.full)).items = .ok items :=
    Tree.fold_induction ⟨[], rfl⟩ (fun _ _ => emit_full_ok) t
  exact ⟨_, by rw [Graph.ofTree, hitems]; rfl⟩

/-- The graph of a tree in all colors. -/
def River.Tree.graph (t : Tree) : Graph :=
  match h : Graph.ofTree Palette.full t with
  | .ok g => g
  | .error _ => absurd h (by obtain ⟨g, hg⟩ := Graph.ofTree_full t; simp [hg])

end StreamTypes
