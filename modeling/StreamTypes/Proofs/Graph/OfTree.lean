import StreamTypes.Graph.Build
import StreamTypes.Proofs.Dot.Unambiguous
import StreamTypes.Proofs.River.Walk
import StreamTypes.Proofs.Text.Unsigned

/-!
# What the graph of a tree holds

Declarations are made from the root downwards, with some siblings moved and some of them
enclosed. Neither changes which nodes are declared: each node of the tree is declared
once, under a name made of its index. The edges follow the walk through the tree, which
visits each node once, so the edges that start at a node lead to its children in order.

## Main definitions

- `declOf` — the declaration of a node

## Main statements

- `River.Tree.nodes_graph_perm` — each node of a tree is declared once
- `River.Tree.edges_from` — the edges that start at a node lead to its children
- `River.Tree.graph_named` — the names of a graph can be told apart
-/

namespace StreamTypes

open River (Kind Node Tree)

/-! ### Names -/

theorem nodeId_injective : Function.Injective nodeId := by
  intro i j h
  have hdigits := congrArg String.toList h
  simp only [nodeId, String.toList_append] at hdigits
  exact Text.repr_injective (String.toList_inj.1 (List.append_cancel_left hdigits))

theorem isName_nodeId (index : Nat) : IsName nodeLetters (nodeId index) :=
  ⟨(Nat.repr index).toList, fun _ => Text.isDigit_of_mem_repr, String.toList_append⟩

theorem isName_clusterId (index : Nat) : IsName clusterLetters (clusterId index) :=
  ⟨(Nat.repr index).toList, fun _ => Text.isDigit_of_mem_repr, String.toList_append⟩

/-! ### Declarations -/

section
variable {ι κ : Type}

@[simp] theorem nodeLabel_map (f : ι → κ) (node : Node ι) :
    nodeLabel (node.map f) = nodeLabel node := by
  cases node <;> rfl

/-- The declaration of the node at an index. -/
def declOf (index : Nat) (node : Node ι) : NodeDecl :=
  ⟨nodeId index, nodeLabel node, node.kind, (Palette.full node.kind).getD ""⟩

@[simp] theorem declOf_map (f : ι → κ) (index : Nat) (node : Node ι) :
    declOf index (node.map f) = declOf index node := by
  simp [declOf]

end

theorem Item.nodesOf_append (xs ys : List Item) :
    Item.nodesOf (xs ++ ys) = Item.nodesOf xs ++ Item.nodesOf ys := by
  induction xs with
  | nil => rfl
  | cons x xs ih => rw [List.cons_append, nodesOf, nodesOf, ih, List.append_assoc]

theorem Item.namedAll_append {xs ys : List Item} (hx : Item.NamedAll xs)
    (hy : Item.NamedAll ys) : Item.NamedAll (xs ++ ys) := by
  induction xs with
  | nil => exact hy
  | cons x xs ih => exact ⟨hx.1, ih hx.2⟩

/-- The nodes that are declared for a form and all that is below it. -/
def Emission.nodes (e : Emission) : List NodeDecl :=
  match e.items with
  | .ok items => Item.nodesOf items
  | .error _ => []

/-- The declarations for a form, if any, have names that can be told apart. -/
def Emission.Named (e : Emission) : Prop :=
  ∀ items, e.items = .ok items → Item.NamedAll items

theorem emitAll_cons_ok {member : Emission} {members : List Emission} {items : List Item}
    (h : emitAll (member :: members) = .ok items) :
    ∃ own rest, member.items = .ok own ∧ emitAll members = .ok rest ∧ items = own ++ rest := by
  rw [emitAll] at h
  split at h
  case h_1 => cases h
  case h_2 own hown =>
    split at h
    case h_1 => cases h
    case h_2 rest hrest =>
      cases h
      exact ⟨own, rest, hown, hrest, rfl⟩

/-- A form is declared before its children, which follow in a cluster or with the `New`
forms last. -/
theorem emit_ok {palette : Palette} {index : Nat} {node : Node Emission} {items : List Item}
    (h : (emit palette index node).items = .ok items) :
    ∃ color below, palette node.kind = some color ∧
      ((opensCluster node.kind = true ∧ emitAll node.children = .ok below ∧
          items = [.node ⟨nodeId index, nodeLabel node, node.kind, color⟩,
            .cluster ⟨clusterId index, node.kind.keyword, node.kind⟩ below]) ∨
        (opensCluster node.kind = false ∧ emitAll (newLast node.children) = .ok below ∧
          items = .node ⟨nodeId index, nodeLabel node, node.kind, color⟩ :: below)) := by
  rw [emit] at h
  dsimp only at h
  split at h
  case h_1 => cases h
  case h_2 color hcolor =>
    split at h
    case isTrue hopens =>
      cases hbelow : emitAll node.children with
      | error e => simp [hbelow, Except.map] at h
      | ok below =>
        simp only [hbelow, Except.map, Except.ok.injEq] at h
        exact ⟨color, below, hcolor, .inl ⟨hopens, rfl, h.symm⟩⟩
    case isFalse hopens =>
      cases hbelow : emitAll (newLast node.children) with
      | error e => simp [hbelow, Except.map] at h
      | ok below =>
        simp only [hbelow, Except.map, Except.ok.injEq] at h
        exact ⟨color, below, hcolor, .inr ⟨Bool.eq_false_iff.2 hopens, rfl, h.symm⟩⟩

theorem nodesOf_emitAll {members : List Emission} {items : List Item}
    (h : emitAll members = .ok items) : Item.nodesOf items = members.flatMap Emission.nodes := by
  induction members generalizing items with
  | nil =>
    cases h
    rfl
  | cons member members ih =>
    obtain ⟨own, rest, hown, hrest, rfl⟩ := emitAll_cons_ok h
    rw [Item.nodesOf_append, ih hrest, List.flatMap_cons, Emission.nodes, hown]

theorem namedAll_emitAll {members : List Emission} {items : List Item}
    (hmembers : ∀ m ∈ members, m.Named) (h : emitAll members = .ok items) :
    Item.NamedAll items := by
  induction members generalizing items with
  | nil =>
    cases h
    trivial
  | cons member members ih =>
    obtain ⟨own, rest, hown, hrest, rfl⟩ := emitAll_cons_ok h
    exact Item.namedAll_append (hmembers member (by simp) own hown)
      (ih (fun m hm => hmembers m (by simp [hm])) hrest)

theorem newLast_perm (members : List Emission) : (newLast members).Perm members := by
  have hsplit := List.filter_append_perm (fun e : Emission => e.kind != .wrap .new) members
  simpa [newLast, bne] using hsplit

/-- A form and all that is below it are declared, each child with what is below it. -/
theorem nodes_emit_perm (index : Nat) {node : Node Emission}
    (h : ∀ m ∈ node.children, ∃ items, m.items = .ok items) :
    (emit Palette.full index node).nodes.Perm
      (declOf index node :: node.children.flatMap Emission.nodes) := by
  obtain ⟨items, hitems⟩ : ∃ items, (emit Palette.full index node).items = .ok items :=
    emit_full_ok h
  obtain ⟨color, below, hcolor, hcases⟩ := emit_ok hitems
  have hnodes : (emit Palette.full index node).nodes = Item.nodesOf items := by
    rw [Emission.nodes, hitems]
  have hdecl : declOf index node = ⟨nodeId index, nodeLabel node, node.kind, color⟩ := by
    rw [declOf, hcolor, Option.getD_some]
  rw [hnodes, hdecl]
  rcases hcases with ⟨-, hbelow, rfl⟩ | ⟨-, hbelow, rfl⟩
  · rw [← nodesOf_emitAll hbelow]
    simp [Item.nodesOf, Item.nodes]
  · rw [Item.nodesOf, Item.nodes, List.singleton_append, List.perm_cons, nodesOf_emitAll hbelow]
    exact (newLast_perm _).flatMap_right _

theorem named_emit {palette : Palette} {index : Nat} {node : Node Emission}
    (h : ∀ m ∈ node.children, m.Named) : (emit palette index node).Named := by
  intro items hitems
  obtain ⟨color, below, -, hcases⟩ := emit_ok hitems
  rcases hcases with ⟨-, hbelow, rfl⟩ | ⟨-, hbelow, rfl⟩
  · exact ⟨isName_nodeId index, ⟨isName_clusterId index, namedAll_emitAll h hbelow⟩, trivial⟩
  · have hmoved : ∀ m ∈ newLast node.children, m.Named := fun m hm =>
      h m ((newLast_perm _).mem_iff.1 hm)
    exact ⟨isName_nodeId index, namedAll_emitAll hmoved hbelow⟩

namespace River.Tree

variable (t : Tree)

/-! ### The graph of a tree -/

theorem ofTree_graph : Graph.ofTree Palette.full t = .ok t.graph := by
  rw [graph]
  split
  case h_1 g hg => exact hg
  case h_2 e he => exact absurd he (by obtain ⟨g, hg⟩ := Graph.ofTree_full t; simp [hg])

theorem graph_eq : (t.fold (emit Palette.full)).items = .ok t.graph.items ∧
    t.graph.edges = edgesAlong t.nodes.toArray t.walk := by
  have hgraph := t.ofTree_graph
  rw [Graph.ofTree] at hgraph
  cases hitems : (t.fold (emit Palette.full)).items with
  | error e => simp [hitems, Except.map] at hgraph
  | ok items =>
    simp only [hitems, Except.map, Except.ok.injEq] at hgraph
    rw [← hgraph]
    exact ⟨rfl, rfl⟩

theorem resultAt_emit_ok (i : Nat) :
    ∃ items, (t.resultAt (emit Palette.full) i).items = .ok items :=
  foldFrom_induction (fun _ _ => emit_full_ok) t.nodes #[] (fun _ => ⟨[], by simp; rfl⟩) i

/-- The nodes that are declared for the node at an index and for all that is below it. -/
def declsBelow (i : Nat) : List NodeDecl :=
  (t.resultAt (emit Palette.full) i).nodes

theorem nodes_graph : t.graph.nodes = t.declsBelow t.root := by
  have hitems : (t.resultAt (emit Palette.full) t.root).items = .ok t.graph.items := t.graph_eq.1
  rw [declsBelow, Emission.nodes, hitems, Graph.nodes]

theorem declsBelow_perm {i : Nat} {node : Node Nat} (h : t.nodes[i]? = some node) :
    (t.declsBelow i).Perm (declOf i node :: node.children.flatMap t.declsBelow) := by
  have hchildren : ∀ m ∈ (node.map (t.resultAt (emit Palette.full))).children,
      ∃ items, m.items = .ok items := by
    intro m hm
    rw [Node.children_map] at hm
    obtain ⟨c, -, rfl⟩ := List.mem_map.1 hm
    exact t.resultAt_emit_ok c
  have hperm := nodes_emit_perm i hchildren
  rwa [← t.resultAt_eq (emit Palette.full) h, declOf_map, Node.children_map,
    List.flatMap_map] at hperm

/-- Each node of a tree is declared once. -/
theorem nodes_graph_perm : t.graph.nodes.Perm (t.nodes.mapIdx declOf) := by
  rw [nodes_graph]
  exact t.perm_entries fun i node h => t.declsBelow_perm h

theorem edgesAlong_append (nodes : Array (Node Nat)) (xs ys : List Nat) :
    edgesAlong nodes (xs ++ ys) = edgesAlong nodes xs ++ edgesAlong nodes ys :=
  List.flatMap_append

theorem edgesNamed_edgesAlong (nodes : Array (Node Nat)) (walk : List Nat) :
    Dot.EdgesNamed (edgesAlong nodes walk) := by
  intro edge hedge
  obtain ⟨i, -, hi⟩ := List.mem_flatMap.1 hedge
  obtain ⟨c, -, rfl⟩ := List.mem_map.1 hi
  exact ⟨isName_nodeId i, isName_nodeId c⟩

/-- No edge starts at a node that the walk does not visit. -/
theorem filter_edgesAlong_of_notMem {nodes : Array (Node Nat)} {walk : List Nat} {i : Nat}
    (h : i ∉ walk) : (edgesAlong nodes walk).filter (fun edge => edge.1 = nodeId i) = [] := by
  refine List.filter_eq_nil_iff.2 fun edge hedge => ?_
  obtain ⟨j, hj, hmem⟩ := List.mem_flatMap.1 hedge
  obtain ⟨c, -, rfl⟩ := List.mem_map.1 hmem
  have hne : j ≠ i := fun heq => h (heq ▸ hj)
  simpa using fun heq => hne (nodeId_injective heq)

/-- The edges that start at a node lead to its children, in order. -/
theorem edges_from {i : Nat} {node : Node Nat} (h : t.nodes[i]? = some node) :
    t.graph.edges.filter (fun edge => edge.1 = nodeId i) =
      node.children.map fun child => (nodeId i, nodeId child) := by
  have hlt : i < t.size := (List.getElem?_eq_some_iff.1 h).1
  have hnodup : t.walk.Nodup := t.walk_perm.nodup_iff.2 List.nodup_range
  obtain ⟨before, after, hwalk⟩ :=
    List.append_of_mem (t.walk_perm.mem_iff.2 (List.mem_range.2 hlt))
  -- the walk visits the node once, so no other visit leaves an edge
  rw [hwalk, List.nodup_middle, List.nodup_cons, List.mem_append, not_or] at hnodup
  have hown : edgesAlong t.nodes.toArray [i] =
      node.children.map fun child => (nodeId i, nodeId child) := by
    rw [edgesAlong, List.flatMap_singleton, List.getElem?_toArray, h]
    rfl
  rw [t.graph_eq.2, hwalk, ← List.singleton_append, edgesAlong_append, edgesAlong_append,
    List.filter_append, List.filter_append, filter_edgesAlong_of_notMem hnodup.1.1,
    filter_edgesAlong_of_notMem hnodup.1.2, hown, List.nil_append, List.append_nil]
  refine List.filter_eq_self.2 fun edge hedge => ?_
  obtain ⟨c, -, rfl⟩ := List.mem_map.1 hedge
  exact decide_eq_true rfl

theorem graph_named : t.graph.Named := by
  have hnamed : (t.fold (emit Palette.full)).Named :=
    fold_induction (by rintro items ⟨⟩; trivial) (fun _ _ => named_emit) t
  refine ⟨hnamed _ t.graph_eq.1, ?_⟩
  rw [t.graph_eq.2]
  exact edgesNamed_edgesAlong _ _

end River.Tree

end StreamTypes
