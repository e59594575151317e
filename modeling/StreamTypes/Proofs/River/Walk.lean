import Mathlib.Data.List.Perm.Basic
import StreamTypes.Proofs.River.Unfolding

/-!
# Walks through a tree

The walk through a tree keeps a stack of the indices that are still to be visited. It
lists a node, and then all that is below its first child, its second child, and so on,
so it is the recursive traversal from the root downwards.

Every node but the root is a child once. Whatever a traversal lists for a node, if it is
the node's own entry together with what is listed for each child, in any order, then the
list for the root holds the entry of each node of the tree once.

## Main definitions

- `Tree.preorder` — each node followed by what is below its children

## Main statements

- `WellFormed.children_perm` — the children of all nodes are all nodes but the root
- `Tree.perm_entries` — a traversal lists each node of the tree once
- `Tree.walk_eq_preorder` — the walk is the recursive traversal
- `Tree.walk_perm` — the walk visits each node once
-/

namespace StreamTypes.River

variable {α ι : Type}

/-! ### Children -/

theorem map_snd_referencesFrom (start : Nat) (nodes : List (Node ι)) :
    (referencesFrom start nodes).map Prod.snd = nodes.flatMap Node.children := by
  induction nodes generalizing start with
  | nil => rfl
  | cons node nodes ih =>
    rw [referencesFrom, List.map_append, ih, List.map_map, List.flatMap_cons]
    congr 1
    exact List.map_id _

/-- The children of all nodes are all nodes but the root. -/
theorem WellFormed.children_perm {nodes : List (Node Nat)} {root : Nat}
    (h : WellFormed nodes root) :
    (nodes.flatMap Node.children).Perm (List.range root) := by
  have hlt : ∀ c ∈ nodes.flatMap Node.children, c < root := by
    intro c hc
    obtain ⟨node, hnode, hchild⟩ := List.mem_flatMap.1 hc
    obtain ⟨i, hi⟩ := List.mem_iff_getElem?.1 hnode
    have hlast := h.root_last
    have hbound := (List.getElem?_eq_some_iff.1 hi).1
    have hless := h.child_lt hi hchild
    omega
  refine List.perm_iff_count.2 fun c => ?_
  by_cases hc : c < root
  · have honce := h.once c hc
    rw [references, map_snd_referencesFrom] at honce
    rw [honce, List.count_eq_one_of_mem List.nodup_range (List.mem_range.2 hc)]
  · rw [List.count_eq_zero_of_not_mem fun hmem => hc (hlt c hmem),
      List.count_eq_zero_of_not_mem fun hmem => hc (List.mem_range.1 hmem)]

/-! ### Traversals -/

/-- The lists for all nodes of a row hold the entry of each, and the lists for the
children of each. -/
theorem flatMap_range_perm {nodes : List (Node Nat)} {order listed : Nat → List α}
    {entry : Nat → Node Nat → α}
    (h : ∀ i node, nodes[i]? = some node →
      (listed i).Perm (entry i node :: node.children.flatMap order)) :
    ((List.range nodes.length).flatMap listed).Perm
      (nodes.mapIdx entry ++ (nodes.flatMap Node.children).flatMap order) := by
  induction nodes generalizing listed entry with
  | nil => exact .nil
  | cons node nodes ih =>
    have hrest : ((List.range nodes.length).flatMap fun i => listed (i + 1)).Perm
        (nodes.mapIdx (fun i => entry (i + 1)) ++
          (nodes.flatMap Node.children).flatMap order) :=
      ih fun i node hnode => h (i + 1) node hnode
    have hfirst := h 0 node rfl
    rw [List.length_cons, List.range_succ_eq_map, List.flatMap_cons, List.flatMap_map,
      List.mapIdx_cons, List.flatMap_cons, List.flatMap_append]
    refine (hfirst.append hrest).trans ?_
    rw [List.cons_append, List.cons_append, List.perm_cons, ← List.append_assoc,
      ← List.append_assoc]
    exact List.perm_append_comm.append_right _

namespace Tree

/-- If the list for a node holds the entry of the node and the lists for its children, in
any order, then the list for the root holds the entry of each node once. -/
theorem perm_entries (t : Tree) {order : Nat → List α} {entry : Nat → Node Nat → α}
    (h : ∀ i node, t.nodes[i]? = some node →
      (order i).Perm (entry i node :: node.children.flatMap order)) :
    (order t.root).Perm (t.nodes.mapIdx entry) := by
  -- the lists of all children, which are the lists of all nodes but the root, cancel
  have hall := flatMap_range_perm h
  rw [← t.wellFormed.root_last, List.range_succ, List.flatMap_append, List.flatMap_singleton]
    at hall
  have hchildren := t.wellFormed.children_perm.flatMap_right order
  have hboth : ((List.range t.root).flatMap order ++ order t.root).Perm
      ((List.range t.root).flatMap order ++ t.nodes.mapIdx entry) :=
    (hall.trans (hchildren.append_left _)).trans List.perm_append_comm
  exact (List.perm_append_left_iff _).1 hboth

/-- A node, and then what is listed for its children. -/
def preorderStep (index : Nat) (node : Node (List Nat)) : List Nat :=
  index :: node.children.flatten

/-- The indices of the nodes in the order of the recursion from the root downwards. -/
def preorder (t : Tree) : List Nat :=
  t.fold preorderStep

variable {t : Tree}

theorem resultAt_preorderStep {i : Nat} {node : Node Nat} (h : t.nodes[i]? = some node) :
    t.resultAt preorderStep i = i :: node.children.flatMap (t.resultAt preorderStep) := by
  rw [t.resultAt_eq _ h, preorderStep, Node.children_map, List.flatMap_def]

theorem preorder_perm (t : Tree) : t.preorder.Perm (List.range t.size) := by
  have hperm : t.preorder.Perm (t.nodes.mapIdx fun i _ => i) :=
    t.perm_entries fun i node h => .of_eq (resultAt_preorderStep h)
  have hentries : t.nodes.mapIdx (fun i _ => i) = List.range t.size :=
    List.ext_getElem (by simp [size]) (by simp)
  exact hentries ▸ hperm

/-- A walk with enough fuel lists what the recursion lists for each index of the stack. -/
theorem walkFrom_eq {fuel : Nat} {stack : List Nat} (hstack : ∀ i ∈ stack, i < t.nodes.length)
    (hfuel : (stack.flatMap (t.resultAt preorderStep)).length ≤ fuel) :
    walkFrom t.nodes.toArray fuel stack = stack.flatMap (t.resultAt preorderStep) := by
  induction fuel generalizing stack with
  | zero =>
    rw [walkFrom]
    exact (List.eq_nil_of_length_eq_zero (Nat.le_zero.1 hfuel)).symm
  | succ fuel ih =>
    cases stack with
    | nil => rfl
    | cons i stack =>
      have hi : i < t.nodes.length := hstack i (by simp)
      have hnode : t.nodes[i]? = some t.nodes[i] := List.getElem?_eq_getElem hi
      have hnext : ∀ j ∈ t.nodes[i].children ++ stack, j < t.nodes.length := by
        intro j hj
        rcases List.mem_append.1 hj with hj | hj
        · exact child_lt_length hnode hj
        · exact hstack j (List.mem_cons_of_mem _ hj)
      rw [List.flatMap_cons, resultAt_preorderStep hnode, List.cons_append,
        ← List.flatMap_append] at hfuel ⊢
      rw [walkFrom, List.getElem?_toArray, hnode]
      exact congrArg (i :: ·) (ih hnext (Nat.le_of_succ_le_succ hfuel))

theorem walk_eq_preorder (t : Tree) : t.walk = t.preorder := by
  have hlength : (t.resultAt preorderStep t.root).length = t.size :=
    t.preorder_perm.length_eq.trans List.length_range
  have hwalk : t.walk = [t.root].flatMap (t.resultAt preorderStep) :=
    walkFrom_eq (fun i hi => List.mem_singleton.1 hi ▸ t.root_lt)
      (by rw [List.flatMap_singleton, hlength])
  rw [hwalk, List.flatMap_singleton]
  rfl

theorem walk_perm (t : Tree) : t.walk.Perm (List.range t.size) :=
  t.walk_eq_preorder ▸ t.preorder_perm

end Tree

end StreamTypes.River
