import StreamTypes.Proofs.Graph.Order

/-!
# Incomplete palettes

A palette that has a color for each kind in a tree changes nothing but the colors in its graph. If
there is a kind without a color, there is no graph, and the fault names the kind of the first node
that could not be declared. This is the first one in the order of declaration: each node is looked
at before what is below it, and siblings are looked at after they have been put in order. So what a
palette makes of a tree is told by the graph in all colors, whose nodes stand in this order.

## Main definitions

- `Item.recolored`, `Graph.recolored` — the same declarations in the colors of a palette
- `painted` — declarations in the colors of a palette, or the first kind that has none

## Main statements

- `painted_append` — the first of two lists decides
- `River.Tree.items_resultAt` — what a palette makes of the declarations for a node
- `River.missing_color_exact` — what a palette makes of a tree
-/

namespace StreamTypes

open River (Kind Node Tree)

/-! ### Colors -/

/-- The declaration of a node in the color of its kind, if there is one. -/
def NodeDecl.recolored (palette : Palette) (decl : NodeDecl) : NodeDecl :=
  { decl with color := (palette decl.kind).getD decl.color }

mutual

/-- An item with all its nodes in the colors of a palette. -/
def Item.recolored (palette : Palette) : Item → Item
  | .node decl => .node (decl.recolored palette)
  | .cluster decl items => .cluster decl (Item.recoloredAll palette items)

/-- A list of items with all their nodes in the colors of a palette. -/
def Item.recoloredAll (palette : Palette) : List Item → List Item
  | [] => []
  | item :: items => item.recolored palette :: Item.recoloredAll palette items

end

/-- The same drawing in the colors of a palette. -/
def Graph.recolored (palette : Palette) (g : Graph) : Graph :=
  ⟨Item.recoloredAll palette g.items, g.edges⟩

theorem Item.recoloredAll_append (palette : Palette) (xs ys : List Item) :
    Item.recoloredAll palette (xs ++ ys) =
      Item.recoloredAll palette xs ++ Item.recoloredAll palette ys := by
  induction xs with
  | nil => rfl
  | cons x xs ih => rw [List.cons_append, recoloredAll, recoloredAll, ih, List.cons_append]

mutual

theorem Item.nodes_recolored (palette : Palette) : (item : Item) →
    (item.recolored palette).nodes = item.nodes.map (NodeDecl.recolored palette)
  | .node _ => rfl
  | .cluster _ items => Item.nodesOf_recoloredAll palette items

theorem Item.nodesOf_recoloredAll (palette : Palette) : (items : List Item) →
    Item.nodesOf (Item.recoloredAll palette items) =
      (Item.nodesOf items).map (NodeDecl.recolored palette)
  | [] => rfl
  | item :: items => by
    rw [Item.recoloredAll, Item.nodesOf, Item.nodesOf, Item.nodes_recolored palette item,
      Item.nodesOf_recoloredAll palette items, List.map_append]

end

/-! ### Declarations in the colors of a palette -/

/-- The first kind among some nodes for which a palette has no color. -/
def firstMissing (palette : Palette) (decls : List NodeDecl) : Option Kind :=
  (decls.map NodeDecl.kind).find? fun kind => (palette kind).isNone

/-- Declarations in the colors of a palette, or the first kind that has none. -/
def painted (palette : Palette) (items : List Item) : Except MissingColor (List Item) :=
  match firstMissing palette (Item.nodesOf items) with
  | some kind => .error ⟨kind⟩
  | none => .ok (Item.recoloredAll palette items)

theorem painted_append (palette : Palette) (xs ys : List Item) :
    painted palette (xs ++ ys) =
      match painted palette xs with
      | .error e => .error e
      | .ok front =>
        match painted palette ys with
        | .error e => .error e
        | .ok rest => .ok (front ++ rest) := by
  simp only [painted, firstMissing, Item.nodesOf_append, List.map_append, List.find?_append,
    Item.recoloredAll_append]
  cases ((Item.nodesOf xs).map NodeDecl.kind).find? fun kind => (palette kind).isNone with
  | some kind => rfl
  | none =>
    cases ((Item.nodesOf ys).map NodeDecl.kind).find? fun kind => (palette kind).isNone <;> rfl

theorem painted_node (palette : Palette) (decl : NodeDecl) (items : List Item) :
    painted palette (.node decl :: items) =
      match palette decl.kind with
      | none => .error ⟨decl.kind⟩
      | some color => (painted palette items).map (.node { decl with color := color } :: ·) := by
  have hnodes : Item.nodesOf (.node decl :: items) = decl :: Item.nodesOf items := rfl
  rw [painted, hnodes, firstMissing, List.map_cons, List.find?_cons]
  cases hcolor : palette decl.kind with
  | none => rfl
  | some color =>
    have hdecl : decl.recolored palette = { decl with color := color } := by
      rw [NodeDecl.recolored, hcolor, Option.getD_some]
    rw [painted, firstMissing, Item.recoloredAll, Item.recolored, hdecl]
    dsimp only [Option.isNone_some]
    cases ((Item.nodesOf items).map NodeDecl.kind).find? fun kind => (palette kind).isNone <;> rfl

theorem painted_cluster (palette : Palette) (decl : ClusterDecl) (items : List Item) :
    painted palette [.cluster decl items] =
      (painted palette items).map fun inside => [.cluster decl inside] := by
  have hnodes : Item.nodesOf [.cluster decl items] = Item.nodesOf items :=
    List.append_nil _
  rw [painted, painted, hnodes]
  cases firstMissing palette (Item.nodesOf items) <;> rfl

/-- Declarations of several forms in a row are made until one of them has no color. -/
theorem emitAll_eq_painted {α : Type} {palette : Palette} {result : α → Emission}
    {items : α → List Item} {members : List α}
    (h : ∀ a ∈ members, (result a).items = painted palette (items a)) :
    emitAll (members.map result) = painted palette (members.flatMap items) := by
  induction members with
  | nil => rfl
  | cons a members ih =>
    have hrest := ih fun b hb => h b (by simp [hb])
    rw [List.flatMap_cons, painted_append, ← h a (by simp), ← hrest]
    rfl

/-- A form is looked at before its children, which are put in order first. -/
theorem items_emit (palette : Palette) (index : Nat) (node : Node Emission) :
    (emit palette index node).items =
      match palette node.kind with
      | none => .error ⟨node.kind⟩
      | some color =>
        (emitAll (River.movedLast Emission.isNew node.children)).map fun items =>
          .node ⟨nodeId index, nodeLabel node, node.kind, color⟩ :: clustered index node items := by
  rw [emit]
  dsimp only
  cases palette node.kind with
  | none => rfl
  | some color =>
    cases hopens : opensCluster node.kind with
    | true =>
      rw [movedLast_children_of_opensCluster _ hopens]
      simp only [clustered, hopens, if_true]
      rfl
    | false =>
      simp only [clustered, hopens, Bool.false_eq_true, if_false]
      rfl

namespace River

namespace Tree

variable {t : Tree} {palette : Palette}

theorem clustered_painted (index : Nat) (node : Node Nat) (items : List Item) :
    painted palette (clustered index node items) =
      (painted palette items).map (clustered index node) := by
  rw [clustered]
  split
  case isTrue hopens =>
    rw [painted_cluster]
    congr 1
    funext inside
    rw [clustered, if_pos hopens]
  case isFalse hopens =>
    have hsame : clustered index node = id := by
      funext inside
      rw [clustered, if_neg hopens]
      rfl
    rw [hsame]
    cases painted palette items <;> rfl

/-- What a palette makes of the declarations for a node and for all that is below it. -/
theorem items_resultAt {i : Nat} (hi : i < t.nodes.length) :
    (t.resultAt (emit palette) i).items = painted palette (t.itemsFrom i) := by
  induction i, hi using children_induction with
  | step i node hnode ih =>
    have hmoved : ∀ c ∈ node.children, (t.resultAt (emit palette) c).isNew = t.isNew c :=
      fun c hc => isNew_resultAt (child_lt_length hnode hc)
    have hbelow : emitAll ((movedLast t.isNew node.children).map (t.resultAt (emit palette))) =
        painted palette ((movedLast t.isNew node.children).flatMap t.itemsFrom) :=
      emitAll_eq_painted fun c hc => ih c ((movedLast_perm ..).mem_iff.1 hc)
    have hdecl : t.declAt i = declOf i node := by rw [declAt, nodeAt_eq hnode]
    rw [t.resultAt_eq _ hnode, items_emit, itemsFrom_eq hnode, painted_node, Node.kind_map,
      Node.children_map, movedLast_map, movedLast_congr hmoved, hbelow, clustered_painted,
      Node.children_newLast, hdecl]
    simp only [declOf, nodeLabel_map, clustered_map]
    cases palette node.kind with
    | none => rfl
    | some color =>
      cases painted palette ((movedLast t.isNew node.children).flatMap t.itemsFrom) <;> rfl

/-- A palette makes of a tree what it makes of its graph in all colors. -/
theorem ofTree_eq (t : Tree) (palette : Palette) : Graph.ofTree palette t =
    match firstMissing palette t.graph.nodes with
    | some kind => .error ⟨kind⟩
    | none => .ok (t.graph.recolored palette) := by
  have hitems : (t.fold (emit palette)).items = painted palette t.graph.items := by
    rw [items_graph]
    exact items_resultAt t.root_lt
  rw [Graph.ofTree, hitems, painted, ← t.graph_eq.2, Graph.recolored, Graph.nodes]
  cases firstMissing palette (Item.nodesOf t.graph.items) <;> rfl

/-- The first kind without a color is that of the first node in the order of declaration that has
none. -/
theorem firstMissing_nodes (t : Tree) (palette : Palette) :
    firstMissing palette t.graph.nodes =
      ((t.newLast.preorderFrom t.root).find? fun i => (palette (t.nodeAt i).kind).isNone).map
        fun i => (t.nodeAt i).kind := by
  rw [firstMissing, nodes_graph_eq, walk_eq, List.map_map, List.find?_map]
  rfl


/-- The kinds that are declared are those of the nodes. -/
theorem kinds_graph_perm (t : Tree) :
    (t.graph.nodes.map NodeDecl.kind).Perm (t.nodes.map Node.kind) := by
  have hperm := t.nodes_graph_perm.map NodeDecl.kind
  have hkinds : (t.nodes.mapIdx declOf).map NodeDecl.kind = t.nodes.map Node.kind := by
    apply List.ext_getElem
    · simp
    · intro i _ _
      simp [declOf]
  rwa [hkinds] at hperm

theorem firstMissing_eq_none_iff (t : Tree) (palette : Palette) :
    firstMissing palette t.graph.nodes = none ↔ ∀ node ∈ t.nodes, palette node.kind ≠ none := by
  rw [firstMissing, List.find?_eq_none]
  constructor
  · intro h node hnode hnone
    refine h node.kind (t.kinds_graph_perm.mem_iff.2 (List.mem_map_of_mem hnode)) ?_
    rw [hnone, Option.isNone_none]
  · intro h kind hkind hnone
    obtain ⟨node, hnode, rfl⟩ := List.mem_map.1 (t.kinds_graph_perm.mem_iff.1 hkind)
    exact h node hnode (Option.isNone_iff_eq_none.1 hnone)

end Tree

/-- If a palette has no color for some node of a tree, there is no graph, and the fault names the
kind of the first node without one in the order of declaration, in which the `New` members of a
collection follow all others. If it has a color for each node, the graph is that in all colors but
for the colors of its nodes, which are those of the palette. -/
theorem missing_color_exact (t : Tree) (palette : Palette) :
    (∀ kind, Graph.ofTree palette t = .error ⟨kind⟩ ↔
        ((t.newLast.preorderFrom t.root).find? fun i => (palette (t.nodeAt i).kind).isNone).map
          (fun i => (t.nodeAt i).kind) = some kind) ∧
      (∀ i node, t.nodes[i]? = some node → t.newLast.preorderFrom i =
        i :: (movedLast t.isNew node.children).flatMap t.newLast.preorderFrom) ∧
      ((∃ kind, Graph.ofTree palette t = .error ⟨kind⟩) ↔
        ∃ node ∈ t.nodes, palette node.kind = none) ∧
      ((∀ node ∈ t.nodes, palette node.kind ≠ none) →
        Graph.ofTree palette t = .ok (t.graph.recolored palette) ∧
          ∀ decl ∈ (t.graph.recolored palette).nodes, palette decl.kind = some decl.color) := by
  have hkinds := t.firstMissing_eq_none_iff palette
  have hgraph := t.ofTree_eq palette
  refine ⟨fun kind => ?_, fun i node hnode => ?_, ?_, fun hall => ?_⟩
  · rw [← t.firstMissing_nodes, hgraph]
    cases firstMissing palette t.graph.nodes <;> simp
  · rw [← Node.children_newLast]
    exact Tree.preorderFrom_eq (Tree.getElem?_newLast hnode)
  · cases hfirst : firstMissing palette t.graph.nodes with
    | none =>
      rw [hfirst] at hkinds hgraph
      have hall := hkinds.1 rfl
      rw [hgraph]
      simpa using hall
    | some kind =>
      rw [hfirst] at hkinds hgraph
      rw [hgraph]
      simpa using hkinds
  · have hfirst := hkinds.2 hall
    rw [hfirst] at hgraph
    refine ⟨hgraph, fun decl hdecl => ?_⟩
    rw [Graph.nodes, Graph.recolored, Item.nodesOf_recoloredAll] at hdecl
    obtain ⟨own, hown, rfl⟩ := List.mem_map.1 hdecl
    obtain ⟨node, hnode, hkind⟩ := List.mem_map.1
      (t.kinds_graph_perm.mem_iff.1 (List.mem_map_of_mem hown))
    obtain ⟨color, hcolor⟩ := Option.ne_none_iff_exists'.1 (hall node hnode)
    rw [hkind] at hcolor
    simp [NodeDecl.recolored, hcolor]

/-- With no color for `New` and `Flat`, the `Flat` member of a group is found first, though a
`New` member comes first in the list of nodes and on the walk. -/
theorem missing_color_exact_of_moved :
    ∃ t, Tree.ofNodes? [.bits 1, .wrap .new 0 {}, .bits 2, .wrap .flat 2 {}, .collect .group 1 [3]]
        4 = .ok t ∧
      t.walk = [4, 1, 0, 3, 2] ∧ (t.nodeAt 1).kind = .wrap .new ∧
      Graph.ofTree (Palette.full.without [.wrap .new, .wrap .flat]) t = .error ⟨.wrap .flat⟩ ∧
      Graph.ofTree (Palette.full.without [.wrap .root]) t =
        .ok (t.graph.recolored (Palette.full.without [.wrap .root])) := by
  obtain ⟨t, ht, hnodes, hwalk, hkind, hfirst⟩ : ∃ t,
      Tree.ofNodes? [.bits 1, .wrap .new 0 {}, .bits 2, .wrap .flat 2 {}, .collect .group 1 [3]]
          4 = .ok t ∧
        t.nodes = [.bits 1, .wrap .new 0 {}, .bits 2, .wrap .flat 2 {}, .collect .group 1 [3]] ∧
        t.walk = [4, 1, 0, 3, 2] ∧ (t.nodeAt 1).kind = .wrap .new ∧
        ((t.newLast.preorderFrom t.root).find? fun i =>
          (Palette.full.without [.wrap .new, .wrap .flat] (t.nodeAt i).kind).isNone).map
            (fun i => (t.nodeAt i).kind) = some (.wrap .flat) :=
    ⟨_, rfl, rfl, rfl, rfl, rfl⟩
  have hcovered : ∀ node ∈ t.nodes, Palette.full.without [.wrap .root] node.kind ≠ none := by
    rw [hnodes]
    decide
  obtain ⟨hfault, -⟩ := missing_color_exact t (Palette.full.without [.wrap .new, .wrap .flat])
  obtain ⟨-, -, -, hgraph⟩ := missing_color_exact t (Palette.full.without [.wrap .root])
  exact ⟨t, ht, hwalk, hkind, (hfault _).2 hfirst, (hgraph hcovered).1⟩

end River

end StreamTypes
