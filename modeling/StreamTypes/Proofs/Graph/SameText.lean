import StreamTypes.Proofs.Graph.OfTree
import StreamTypes.Proofs.River.ShapeCheck

/-!
# Trees with the same drawing

The label of a node shows its keyword and the numbers that are written or that stand for
those that are not. Two nodes with the same label and the same children therefore are
equal after their defaults have been written out. A drawing shows the label of each node
under a name that tells its index, and its children by the edges that start at it. So the
text of a drawing tells the tree, up to the parameters that are not written.

## Main definitions

- `River.Tree.resolved` — the tree with every default written out

## Main statements

- `nodeLabel_inj` — what the label of a node shows
- `River.Tree.graph_resolved` — parameters that are not written are drawn as their defaults
- `River.Tree.same_dot_iff` — the trees whose drawings have the same text
-/

namespace StreamTypes

open River (Kind Node Params Tree)

/-! ### Defaults -/

section
variable {ι κ : Type}

/-- The same form with every default written out. -/
def River.Node.resolved : Node ι → Node ι
  | .bits width => .bits width
  | .wrap wrapper child params => .wrap wrapper child params.resolved
  | .collect collection first rest => .collect collection first rest

@[simp] theorem River.Node.kind_resolved (node : Node ι) : node.resolved.kind = node.kind := by
  cases node <;> rfl

@[simp] theorem River.Node.children_resolved (node : Node ι) :
    node.resolved.children = node.children := by
  cases node <;> rfl

theorem River.Node.map_resolved (f : ι → κ) (node : Node ι) :
    node.resolved.map f = (node.map f).resolved := by
  cases node <;> rfl

@[simp] theorem nodeLabel_resolved (node : Node ι) : nodeLabel node.resolved = nodeLabel node := by
  cases node <;> rfl

/-! ### Labels -/

theorem toList_paramsLabel (p : Params) : (paramsLabel p).toList =
    ['N', '='] ++ (p.effectiveElements.repr.toList ++ ',' :: (['C', '='] ++
      (p.effectiveComplexity.repr.toList ++ ',' :: (['U', '='] ++
        p.effectiveUserbits.repr.toList)))) := by
  simp [paramsLabel]

/-- The parameters inside a label tell the parameters with their defaults. -/
theorem paramsLabel_inj {p q : Params} (h : paramsLabel p = paramsLabel q) :
    p.resolved = q.resolved := by
  have htext := congrArg String.toList h
  rw [toList_paramsLabel, toList_paramsLabel] at htext
  obtain ⟨helements, htext⟩ := Text.repr_append_inj rfl (List.append_cancel_left htext)
  obtain ⟨hcomplexity, htext⟩ := Text.repr_append_inj rfl (List.append_cancel_left htext)
  have huserbits := Text.repr_injective (String.toList_inj.1 (List.append_cancel_left htext))
  rw [Params.resolved, Params.resolved, helements, hcomplexity, huserbits]

theorem keyword_prefix_nodeLabel (node : Node ι) :
    node.kind.keyword.toList <+: (nodeLabel node).toList := by
  cases node with
  | bits width =>
    exact ⟨'<' :: (width.repr ++ ">").toList, by simp [nodeLabel, Node.kind, Kind.keyword]⟩
  | wrap wrapper child params =>
    rw [nodeLabel, String.append_assoc, String.append_assoc, String.toList_append]
    exact List.prefix_append _ _
  | collect collection first rest => exact List.prefix_refl _

theorem kind_eq_of_nodeLabel {m n : Node ι} (h : nodeLabel m = nodeLabel n) :
    m.kind = n.kind := by
  obtain ⟨r, hn⟩ := keyword_prefix_nodeLabel n
  have hm := keyword_prefix_nodeLabel m
  rw [h, ← hn] at hm
  exact River.kind_eq_of_keyword hm

/-- Nodes with the same label and the same children are equal after their defaults have been
written out. -/
theorem nodeLabel_inj {m n : Node ι} (hlabel : nodeLabel m = nodeLabel n)
    (hchildren : m.children = n.children) : m.resolved = n.resolved := by
  have hkind := kind_eq_of_nodeLabel hlabel
  cases m with
  | bits width =>
    cases n with
    | wrap | collect => cases hkind
    | bits width' =>
      rw [nodeLabel, nodeLabel, String.append_left_inj, String.append_right_inj] at hlabel
      rw [Text.repr_injective hlabel]
  | wrap wrapper child params =>
    cases n with
    | bits | collect => cases hkind
    | wrap wrapper' child' params' =>
      cases hkind
      cases hchildren
      rw [nodeLabel, nodeLabel, String.append_left_inj, String.append_right_inj] at hlabel
      rw [Node.resolved, Node.resolved, paramsLabel_inj hlabel]
  | collect collection first rest =>
    cases n with
    | bits | wrap => cases hkind
    | collect collection' first' rest' =>
      cases hkind
      cases hchildren
      rfl

/-- With its defaults written out, a form is declared in the same way. -/
theorem emit_resolved (palette : Palette) (index : Nat) (node : Node Emission) :
    emit palette index node.resolved = emit palette index node := by
  rw [emit, emit, nodeLabel_resolved, Node.kind_resolved, Node.children_resolved]

end

namespace River

theorem references_resolved (nodes : List (Node Nat)) :
    references (nodes.map Node.resolved) = references nodes := by
  have h : ∀ start, referencesFrom start (nodes.map Node.resolved) =
      referencesFrom start nodes := by
    induction nodes with
    | nil => exact fun _ => rfl
    | cons node nodes ih =>
      intro start
      rw [List.map_cons, referencesFrom, referencesFrom, Node.children_resolved, ih]
  exact h 0

namespace Tree

/-- The tree with every default written out. -/
def resolved (t : Tree) : Tree where
  nodes := t.nodes.map Node.resolved
  root := t.root
  wellFormed :=
    ⟨by rw [List.length_map, t.wellFormed.root_last],
      by rw [references_resolved]; exact t.wellFormed.earlier,
      by rw [references_resolved]; exact t.wellFormed.once⟩

/-- A fold whose step does not tell parameters from their defaults does not either. -/
theorem fold_resolved {β : Type} [Inhabited β] {step : Nat → Node β → β}
    (h : ∀ index node, step index node.resolved = step index node) (t : Tree) :
    t.resolved.fold step = t.fold step := by
  have hfrom : ∀ (nodes : List (Node Nat)) (done : Array β),
      foldFrom step (nodes.map Node.resolved) done = foldFrom step nodes done := by
    intro nodes
    induction nodes with
    | nil => exact fun _ => rfl
    | cons node nodes ih =>
      intro done
      rw [List.map_cons, foldFrom, foldFrom, ih, Node.map_resolved, h]
  rw [fold, fold, resolved, hfrom]

theorem walk_resolved (t : Tree) : t.resolved.walk = t.walk := by
  rw [walk_eq_preorder, walk_eq_preorder]
  refine fold_resolved (fun index node => ?_) t
  rw [preorderStep, preorderStep, Node.children_resolved]

theorem edgesAlong_resolved (nodes : List (Node Nat)) (walk : List Nat) :
    edgesAlong (nodes.map Node.resolved).toArray walk = edgesAlong nodes.toArray walk := by
  have hchildren : ∀ i : Nat, (nodes.map Node.resolved)[i]?.map Node.children =
      nodes[i]?.map Node.children := by
    intro i
    rw [List.getElem?_map, Option.map_map]
    exact congrArg (Option.map · nodes[i]?) (funext Node.children_resolved)
  simp only [edgesAlong, List.getElem?_toArray, hchildren]

/-- Parameters that are not written are drawn as their defaults. -/
theorem graph_resolved (t : Tree) : t.resolved.graph = t.graph := by
  have hgraph : Graph.ofTree Palette.full t.resolved = Graph.ofTree Palette.full t := by
    rw [Graph.ofTree, Graph.ofTree, fold_resolved (emit_resolved _), walk_resolved, resolved,
      edgesAlong_resolved]
  rw [ofTree_graph, ofTree_graph] at hgraph
  exact Except.ok.inj hgraph

/-! ### Reading a tree back -/

variable {t u : Tree}

/-- A node that is declared in one of two drawings that are alike is declared in the other
one, under the same name and with the same label. -/
theorem exists_label_eq (halike : List.Forall₂ NodeDecl.Alike t.graph.nodes u.graph.nodes)
    {i : Nat} {node : Node Nat} (h : t.nodes[i]? = some node) :
    ∃ node', u.nodes[i]? = some node' ∧ nodeLabel node = nodeLabel node' := by
  obtain ⟨hi, rfl⟩ := List.getElem?_eq_some_iff.1 h
  have hdecl : declOf i t.nodes[i] ∈ t.graph.nodes :=
    t.nodes_graph_perm.mem_iff.2 (List.mem_mapIdx.2 ⟨i, hi, rfl⟩)
  obtain ⟨k, hk, hget⟩ := List.mem_iff_getElem.1 hdecl
  have hk' : k < u.graph.nodes.length := halike.length_eq ▸ hk
  have hsame := halike.get hk hk'
  obtain ⟨j, hj, hdecl'⟩ := List.mem_mapIdx.1
    (u.nodes_graph_perm.mem_iff.1 (List.getElem_mem hk'))
  rw [List.get_eq_getElem, List.get_eq_getElem, hget, ← hdecl'] at hsame
  -- the names are made of the indices
  cases nodeId_injective hsame.id
  exact ⟨_, List.getElem?_eq_getElem hj, hsame.label⟩

theorem children_eq (hedges : t.graph.edges = u.graph.edges) {i : Nat} {m n : Node Nat}
    (hm : t.nodes[i]? = some m) (hn : u.nodes[i]? = some n) : m.children = n.children := by
  have hfrom := t.edges_from hm
  rw [hedges, u.edges_from hn] at hfrom
  refine (List.map_injective_iff.2 ?_ hfrom).symm
  exact fun c d hcd => nodeId_injective (Prod.mk.inj hcd).2

/-- Two drawings with the same text are of the same tree, up to the parameters that are not
written. -/
theorem resolved_eq_of_dot_eq {options : DotOptions}
    (h : t.graph.dot options = u.graph.dot options) : t.resolved = u.resolved := by
  obtain ⟨hitems, hedges⟩ := Graph.alike_of_dot_eq t.graph_named u.graph_named h
  have halike : List.Forall₂ NodeDecl.Alike t.graph.nodes u.graph.nodes := by
    have hdrawn := hitems.nodesOf
    rwa [← Graph.nodes, ← Graph.nodes, Graph.nodes_drawn, Graph.nodes_drawn] at hdrawn
  have hlength : t.nodes.length = u.nodes.length := by
    have ht := t.nodes_graph_perm.length_eq
    have hu := u.nodes_graph_perm.length_eq
    rw [List.length_mapIdx] at ht hu
    rw [← ht, ← hu, halike.length_eq]
  have hsize : t.resolved.nodes.length = u.resolved.nodes.length := by
    rw [resolved, resolved, List.length_map, List.length_map, hlength]
  refine eq_of_nodes_eq (List.ext_getElem hsize fun i hi _ => ?_)
  rw [resolved, List.length_map] at hi
  have hnode : t.nodes[i]? = some t.nodes[i] := List.getElem?_eq_getElem hi
  obtain ⟨node', hnode', hlabel⟩ := exists_label_eq halike hnode
  have hchildren := children_eq hedges hnode hnode'
  obtain ⟨hi', rfl⟩ := List.getElem?_eq_some_iff.1 hnode'
  simpa [resolved] using nodeLabel_inj hlabel hchildren

/-- The drawings of two trees have the same text exactly if the trees are equal after every
default has been written out, whatever the settings. -/
theorem same_dot_iff (t u : Tree) (options : DotOptions) :
    t.graph.dot options = u.graph.dot options ↔ t.resolved = u.resolved := by
  constructor
  · exact resolved_eq_of_dot_eq
  · intro h
    rw [← t.graph_resolved, h, u.graph_resolved]

end Tree

end River

end StreamTypes
