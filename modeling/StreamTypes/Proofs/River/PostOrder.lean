import StreamTypes.Proofs.River.Layout

/-!
# Post-order arenas

The nodes of a tree may stand in any order in which children come before their parents.
One of these orders is that of a post-order traversal. It is told from the others by
the traversal itself, which then meets the indices one after the other, and there is one
tree of this kind for each type.

## Main definitions

- `Tree.postOrder` — the indices that a post-order traversal meets

## Main statements

- `Tree.nodes_eq_layout_iff` — the trees that are post-order layouts
-/

namespace StreamTypes.River

/-- The indices below a node, children in order, and then the node itself. -/
def postOrderStep (index : Nat) (node : Node (List Nat)) : List Nat :=
  node.children.flatten ++ [index]

/-- The indices in the order in which a post-order traversal meets them. -/
def Tree.postOrder (t : Tree) : List Nat :=
  t.fold postOrderStep

variable {tree : Tree}

mutual

theorem postOrder_of_layout {base : Nat} : {t : Term} →
    t.layout base <+: tree.nodes.drop base →
      tree.resultAt postOrderStep (base + t.inner) = List.range' base t.size
  | .bits width, h => by
    rw [tree.resultAt_eq _ (layout_bits_iff.1 h)]
    rfl
  | .wrap wrapper child params, h => by
    obtain ⟨hchild, hnode⟩ := layout_wrap_iff.1 h
    have hroot := tree.resultAt_eq postOrderStep hnode
    rw [Node.map, postOrderStep, Node.children, List.flatten_cons, List.flatten_nil,
      List.append_nil, postOrder_of_layout hchild] at hroot
    exact hroot.trans List.range'_1_concat.symm
  | .collect collection first rest, h => by
    obtain ⟨hfirst, hrest, hnode⟩ := layout_collect_iff.1 h
    have hroot := tree.resultAt_eq postOrderStep hnode
    rw [Node.map, postOrderStep, Node.children, List.flatten_cons, postOrder_of_layout hfirst,
      postOrder_of_layoutOfRest hrest, List.range'_append_1] at hroot
    have hsize : (Term.collect collection first rest).size =
        first.size + Term.sizeOfRest rest + 1 := rfl
    rw [hroot, hsize, List.range'_1_concat]
    rfl

theorem postOrder_of_layoutOfRest {base : Nat} : {terms : List Term} →
    Term.layoutOfRest base terms <+: tree.nodes.drop base →
      ((Term.rootsOfRest base terms).map (tree.resultAt postOrderStep)).flatten =
        List.range' base (Term.sizeOfRest terms)
  | [], _ => rfl
  | term :: terms, h => by
    obtain ⟨hterm, hmore⟩ := layoutOfRest_cons_iff.1 h
    rw [Term.rootsOfRest, List.map_cons, List.flatten_cons, postOrder_of_layout hterm,
      postOrder_of_layoutOfRest hmore, List.range'_append_1]
    rfl

end

/-- The parts of a row of indices are rows of indices. -/
theorem range'_split_append {base n : Nat} {xs ys : List Nat}
    (h : List.range' base n = xs ++ ys) :
    ∃ k, k ≤ n ∧ xs = List.range' base k ∧ ys = List.range' (base + k) (n - k) := by
  obtain ⟨k, hk, hxs, hys⟩ := List.range'_eq_append_iff.1 h
  rw [Nat.mul_one] at hys
  exact ⟨k, hk, hxs, hys⟩

mutual

/-- A part of a tree whose traversal meets indices one after the other is a layout. -/
theorem layout_of_postOrder {i base n : Nat} {t : Term} : Unfolds tree.nodes i t →
    tree.resultAt postOrderStep i = List.range' base n →
      n = t.size ∧ i = base + t.inner ∧ t.layout base <+: tree.nodes.drop base
  | .bits h, hpost => by
    rw [tree.resultAt_eq _ h] at hpost
    obtain ⟨rfl, rfl⟩ := List.range'_eq_singleton_iff.1 hpost.symm
    exact ⟨rfl, rfl, singleton_prefix_drop.2 h⟩
  | .wrap h hchild, hpost => by
    rw [tree.resultAt_eq _ h, Node.map, postOrderStep, Node.children, List.flatten_cons,
      List.flatten_nil, List.append_nil] at hpost
    obtain ⟨k, hk, hbelow, hroot⟩ := range'_split_append hpost.symm
    obtain ⟨rfl, rfl, hlayout⟩ := layout_of_postOrder hchild hbelow
    obtain ⟨rfl, hone⟩ := List.range'_eq_singleton_iff.1 hroot.symm
    refine ⟨?_, rfl, layout_wrap_iff.2 ⟨hlayout, h⟩⟩
    rw [Term.size, Term.inner, ← Term.size]
    omega
  | .collect h hfirst hrest, hpost => by
    rw [tree.resultAt_eq _ h, Node.map, postOrderStep, Node.children, List.flatten_cons,
      List.append_assoc] at hpost
    obtain ⟨k, hk, hbelow, hmore⟩ := range'_split_append hpost.symm
    obtain ⟨rfl, rfl, hlayout⟩ := layout_of_postOrder hfirst hbelow
    obtain ⟨k, hk', hbelow, hroot⟩ := range'_split_append hmore.symm
    obtain ⟨rfl, rfl, hlayout'⟩ := layoutOfRest_of_postOrder hrest hbelow
    -- the index that is left over for the node is the one behind its members
    obtain ⟨hindex, hone⟩ := List.range'_eq_singleton_iff.1 hroot.symm
    rw [Nat.add_assoc] at hindex
    cases hindex
    refine ⟨?_, rfl, layout_collect_iff.2 ⟨hlayout, hlayout', h⟩⟩
    rw [Term.size, Term.inner, ← Term.size]
    omega

theorem layoutOfRest_of_postOrder {indices : List Nat} {base n : Nat} {terms : List Term} :
    UnfoldsRest tree.nodes indices terms →
      (indices.map (tree.resultAt postOrderStep)).flatten = List.range' base n →
        n = Term.sizeOfRest terms ∧ indices = Term.rootsOfRest base terms ∧
          Term.layoutOfRest base terms <+: tree.nodes.drop base
  | .nil, hpost => ⟨List.range'_eq_nil_iff.1 hpost.symm, rfl, List.nil_prefix⟩
  | .cons h hrest, hpost => by
    rw [List.map_cons, List.flatten_cons] at hpost
    obtain ⟨k, hk, hbelow, hmore⟩ := range'_split_append hpost.symm
    obtain ⟨rfl, rfl, hlayout⟩ := layout_of_postOrder h hbelow
    obtain ⟨hsize, rfl, hlayout'⟩ := layoutOfRest_of_postOrder hrest hmore
    refine ⟨?_, rfl, layoutOfRest_cons_iff.2 ⟨hlayout, hlayout'⟩⟩
    rw [Term.sizeOfRest, ← Term.size]
    omega

end

/-- A traversal meets the nodes in the order in which they stand exactly when they are
the post-order layout of the type. -/
theorem Tree.nodes_eq_layout_iff (t : Tree) :
    t.nodes = t.term.layout 0 ↔ t.postOrder = List.range t.size := by
  have hunfolds := t.unfolds_iff.2 rfl
  constructor
  · intro h
    have hsize : t.size = t.term.size := by
      rw [Tree.size, h, Term.length_layout]
    have hroot : t.root + 1 = t.term.inner + 1 := by
      rw [t.wellFormed.root_last, ← Tree.size, hsize, Term.size]
    have hlayout : t.term.layout 0 <+: t.nodes.drop 0 := by
      rw [← h]
      exact List.prefix_refl _
    have hpost := postOrder_of_layout hlayout
    rw [Nat.zero_add, ← Nat.succ_inj.1 hroot, ← hsize, ← List.range_eq_range'] at hpost
    exact hpost
  · intro h
    rw [List.range_eq_range'] at h
    obtain ⟨hsize, -, hlayout⟩ := layout_of_postOrder hunfolds h
    refine (hlayout.eq_of_length ?_).symm
    rw [Term.length_layout, List.drop_zero, ← hsize, Tree.size]

end StreamTypes.River
