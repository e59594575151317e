import StreamTypes.Proofs.Graph.Declarations

/-!
# The order of declarations

The nodes of a tree are declared in the order of the traversal of a tree in which the `New`
members of each collection stand behind all others. Each node is visited once by it, so each
is declared once. The two orders differ where the members have to be moved: if a list without
repetitions has the members of a collection in both orders, they are the same. The edges follow
the walk through the tree as it is, whatever is moved.

## Main statements

- `River.Tree.nodes_graph_eq` — the order in which nodes are declared
- `River.Tree.map_id_nodes_eq_iff` — when they are declared in the order of the walk
- `River.Tree.edges_graph_eq` — the edges of the graph of a tree
- `River.Tree.targets_perm` — an edge leads to each node but the root
- `River.declarations_exact` — the declarations and the edges of a graph
-/

namespace StreamTypes

open River (Kind Node Tree)

theorem Item.nodesOf_flatMap {α : Type} (f : α → List Item) (l : List α) :
    Item.nodesOf (l.flatMap f) = l.flatMap fun a => Item.nodesOf (f a) := by
  induction l with
  | nil => rfl
  | cons a l ih => rw [List.flatMap_cons, List.flatMap_cons, nodesOf_append, ih]

@[simp] theorem Item.nodesOf_clustered {ι : Type} (index : Nat) (node : Node ι)
    (items : List Item) : Item.nodesOf (clustered index node items) = Item.nodesOf items := by
  rw [clustered]
  split
  · rw [nodesOf, nodes, nodesOf, List.append_nil]
  · rfl

namespace River

/-- If what is listed for a member begins with it, the members are listed in order. -/
theorem sublist_flatMap_of_cons {α : Type} {order : α → List α} {members : List α}
    (h : ∀ c ∈ members, ∃ rest, order c = c :: rest) : members.Sublist (members.flatMap order) := by
  induction members with
  | nil => exact .slnil
  | cons c members ih =>
    obtain ⟨rest, hrest⟩ := h c (by simp)
    rw [List.flatMap_cons, hrest, List.cons_append]
    exact .cons_cons c ((ih fun d hd => h d (by simp [hd])).trans (List.sublist_append_right ..))

theorem Node.newLast_eq_self {ι : Type} {moved : ι → Bool} {node : Node ι}
    (h : movedLast moved node.children = node.children) : node.newLast moved = node := by
  cases node with
  | bits | wrap => rfl
  | collect collection first rest =>
    rw [children] at h
    rw [newLast, h]

namespace Tree

variable {t : Tree}

/-! ### Declared nodes -/

/-- What is declared for a node and all that is below it is declared in the order of a
traversal. -/
theorem nodesOf_itemsFrom {i : Nat} (hi : i < t.nodes.length) :
    Item.nodesOf (t.itemsFrom i) = (t.newLast.preorderFrom i).map t.declAt := by
  rw [List.map_eq_flatMap]
  refine eq_flatMap_newLast (fun i => Item.nodesOf (t.itemsFrom i))
    (fun j node hnode => ?_) hi
  rw [itemsFrom_eq hnode, Item.nodesOf, Item.nodes, Item.nodesOf_clustered,
    Item.nodesOf_flatMap]

theorem nodes_graph_eq (t : Tree) : t.graph.nodes = t.newLast.walk.map t.declAt := by
  rw [Graph.nodes, items_graph, nodesOf_itemsFrom t.root_lt, walk_eq]
  rfl

theorem map_id_nodes (t : Tree) :
    t.graph.nodes.map NodeDecl.id = t.newLast.walk.map nodeId := by
  rw [nodes_graph_eq, List.map_map]
  rfl

theorem walk_newLast_perm (t : Tree) : t.newLast.walk.Perm (List.range t.size) := by
  have hperm := t.newLast.walk_perm
  rwa [size, length_newLast] at hperm

/-- The walk visits the children of a node in order. -/
theorem children_sublist_walk {i : Nat} {node : Node Nat} (h : t.nodes[i]? = some node) :
    node.children.Sublist t.walk := by
  have hlt : i < t.nodes.length := (List.getElem?_eq_some_iff.1 h).1
  refine List.Sublist.trans ?_ (preorderFrom_infix_walk hlt).sublist
  rw [preorderFrom_eq h]
  refine (sublist_flatMap_of_cons fun c hc => ?_).cons i
  exact ⟨_, preorderFrom_eq (getElem?_eq_nodeAt (child_lt_length h hc))⟩

/-- The nodes are declared in the order of the walk if no `New` member stands in front of a
member of another kind. -/
theorem map_id_nodes_eq_iff (t : Tree) :
    t.graph.nodes.map NodeDecl.id = t.walk.map nodeId ↔
      ∀ (i : Nat) (node : Node Nat), t.nodes[i]? = some node →
        node.children.Pairwise fun c d => t.isNew c = true → t.isNew d = true := by
  rw [map_id_nodes, (List.map_injective_iff.2 nodeId_injective).eq_iff]
  simp only [← movedLast_eq_self_iff]
  constructor
  · intro hwalk i node hnode
    have hmoved : (movedLast t.isNew node.children).Sublist t.walk := by
      rw [← hwalk, ← Node.children_newLast]
      exact children_sublist_walk (getElem?_newLast hnode)
    exact (t.nodup_walk.perm_iff_eq_of_sublist hmoved (children_sublist_walk hnode)).1
      (movedLast_perm ..)
  · intro h
    have hsame : t.newLast = t := by
      refine eq_of_nodes_eq (List.ext_getElem? fun i => ?_)
      cases hnode : t.nodes[i]? with
      | none => rw [newLast, List.getElem?_map, hnode, Option.map_none]
      | some node => rw [getElem?_newLast hnode, Node.newLast_eq_self (h i node hnode)]
    rw [hsame]

/-! ### Edges -/

theorem edges_graph_eq (t : Tree) : t.graph.edges =
    t.walk.flatMap fun i => (t.nodeAt i).children.map fun c => (nodeId i, nodeId c) := by
  rw [t.graph_eq.2, edgesAlong]
  refine List.flatMap_congr fun i _ => ?_
  rw [List.getElem?_toArray, nodeAt]
  cases t.nodes[i]? <;> rfl

theorem map_nodeAt_range (t : Tree) : (List.range t.size).map t.nodeAt = t.nodes := by
  refine List.ext_getElem (by rw [List.length_map, List.length_range, size]) fun i hi _ => ?_
  rw [List.getElem_map, List.getElem_range]
  exact nodeAt_eq (List.getElem?_eq_getElem _)

/-- An edge leads to each node but the root. -/
theorem targets_perm (t : Tree) :
    (t.graph.edges.map Prod.snd).Perm ((List.range t.root).map nodeId) := by
  have htargets : t.graph.edges.map Prod.snd =
      (t.walk.flatMap fun i => (t.nodeAt i).children).map nodeId := by
    rw [edges_graph_eq, List.map_flatMap, List.map_flatMap]
    refine List.flatMap_congr fun i _ => ?_
    rw [List.map_map]
    rfl
  have hall : ((List.range t.size).flatMap fun i => (t.nodeAt i).children) =
      t.nodes.flatMap Node.children := by
    rw [← List.flatMap_map, map_nodeAt_range]
  rw [htargets]
  refine .map _ ((t.walk_perm.flatMap_right _).trans ?_)
  rw [hall]
  exact t.wellFormed.children_perm

end Tree

/-- Each node of a tree is declared once, with the kind, the label and the color of its form.
The order is that of the traversal in which the `New` members of a collection follow all others,
which is the walk if they do so from the start. The edges are those from the nodes on the walk
to their children, one for each node but the root. -/
theorem declarations_exact (t : Tree) :
    (t.graph.nodes.map NodeDecl.id).Perm ((List.range t.size).map nodeId) ∧
      (∀ i node, t.nodes[i]? = some node → ∃ color, Palette.full node.kind = some color ∧
        t.declAt i = ⟨nodeId i, nodeLabel node, node.kind, color⟩) ∧
      (t.graph.nodes = (t.newLast.preorderFrom t.root).map t.declAt ∧
        ∀ i node, t.nodes[i]? = some node → t.newLast.preorderFrom i =
          i :: (node.newLast t.isNew).children.flatMap t.newLast.preorderFrom) ∧
      (t.graph.nodes.map NodeDecl.id = t.walk.map nodeId ↔
        ∀ (i : Nat) (collection : Collection) (first : Nat) (rest : List Nat),
          t.nodes[i]? = some (.collect collection first rest) →
            (first :: rest).Pairwise fun c d => t.isNew c = true → t.isNew d = true) ∧
      t.graph.edges =
        t.walk.flatMap (fun i => (t.nodeAt i).children.map fun c => (nodeId i, nodeId c)) ∧
      t.graph.edges.length + 1 = t.size ∧
      ∀ k < t.size, k ≠ t.root → (t.graph.edges.map Prod.snd).count (nodeId k) = 1 := by
  have hroot : t.root + 1 = t.size := t.wellFormed.root_last
  refine ⟨?_, fun i node hnode => ?_, ⟨?_, fun i node hnode => ?_⟩, ?_, t.edges_graph_eq, ?_,
    fun k hk hne => ?_⟩
  · rw [Tree.map_id_nodes]
    exact t.walk_newLast_perm.map _
  · obtain ⟨color, hcolor⟩ := Palette.full_eq_some node.kind
    refine ⟨color, hcolor, ?_⟩
    rw [Tree.declAt, Tree.nodeAt_eq hnode, declOf, hcolor, Option.getD_some]
  · rw [Tree.nodes_graph_eq, Tree.walk_eq]
    rfl
  · exact Tree.preorderFrom_eq (Tree.getElem?_newLast hnode)
  · rw [Tree.map_id_nodes_eq_iff]
    constructor
    · exact fun h i collection first rest hnode => h i _ hnode
    · intro h i node hnode
      cases node with
      | bits => exact .nil
      | wrap wrapper child params => exact List.pairwise_singleton _ _
      | collect collection first rest => exact h i collection first rest hnode
  · rw [← List.length_map Prod.snd, t.targets_perm.length_eq, List.length_map, List.length_range,
      hroot]
  · have hmem : k ∈ List.range t.root := List.mem_range.2 (by omega)
    rw [t.targets_perm.count_eq, List.count_map_of_injective _ _ nodeId_injective,
      List.count_eq_one_of_mem List.nodup_range hmem]

/-- A `New` member in front of another one is declared behind it, and its edge stays in front. -/
theorem declarations_exact_of_moved :
    ∃ t, Tree.ofNodes? [.bits 1, .wrap .new 0 {}, .bits 2, .collect .group 1 [2]] 3 = .ok t ∧
      t.walk = [3, 1, 0, 2] ∧
      t.graph.nodes.map NodeDecl.id = [nodeId 3, nodeId 2, nodeId 1, nodeId 0] ∧
      t.graph.edges = [(nodeId 3, nodeId 1), (nodeId 3, nodeId 2), (nodeId 1, nodeId 0)] := by
  obtain ⟨t, ht, hnodes, hwalk, horder⟩ : ∃ t,
      Tree.ofNodes? [.bits 1, .wrap .new 0 {}, .bits 2, .collect .group 1 [2]] 3 = .ok t ∧
        t.nodes = [.bits 1, .wrap .new 0 {}, .bits 2, .collect .group 1 [2]] ∧
        t.walk = [3, 1, 0, 2] ∧ t.newLast.preorderFrom t.root = [3, 2, 1, 0] :=
    ⟨_, rfl, rfl, rfl, rfl⟩
  obtain ⟨-, -, ⟨hdeclared, -⟩, -, hedges, -⟩ := declarations_exact t
  refine ⟨t, ht, hwalk, ?_, ?_⟩
  · rw [hdeclared, horder]
    rfl
  · rw [hedges, hwalk]
    simp [Tree.nodeAt, hnodes, Node.children]

end River

end StreamTypes
