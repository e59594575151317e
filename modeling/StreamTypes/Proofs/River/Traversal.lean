import Mathlib.Order.Bounds.Basic
import StreamTypes.Proofs.River.Descent
import StreamTypes.Proofs.River.Walk

/-!
# Traversals of a tree

The walk through a tree is a loop over a stack of indices, and the depth of a tree comes from
one pass over its nodes from the first to the last. Both look up indices, and a list of nodes
in any order would let them fail: a reference to nowhere would stop the walk, a shared node
would be visited twice, and a child behind its parent would be read before its depth is known.
The runs below exist only where every look-up succeeds, and for the nodes of a tree they do.

## Main definitions

- `Visits` — a run of the walk from a stack to the end
- `ForwardPass` — a run of a pass over nodes, with the results so far
- `Tree.preorderFrom` — the recursive traversal of what is below a node

## Main statements

- `Tree.visits_walk`, `Visits.unique` — the walk ends, in one way
- `forwardPass_foldFrom` — a pass over the nodes of a tree finds all that it reads
- `Tree.mem_preorderFrom_iff`, `Tree.preorderFrom_infix_walk` — what is below a node is visited
  without a gap
- `Tree.depth_isGreatest` — the depth is the length of the longest way to a leaf
- `traversals_exact` — the walk and the depth of a tree
-/

namespace StreamTypes.River

/-! ### Runs -/

/-- A run of the walk: the index on top of the stack, which has to be that of a node, is
visited and replaced by the children of the node, the first of them on top. The run ends when
the stack is empty. -/
inductive Visits (nodes : List (Node Nat)) : List Nat → List Nat → Prop
  | done : Visits nodes [] []
  | visit {i : Nat} {node : Node Nat} {stack visited : List Nat} :
    nodes[i]? = some node → Visits nodes (node.children ++ stack) visited →
      Visits nodes (i :: stack) (i :: visited)

theorem Visits.unique {nodes : List (Node Nat)} {stack visited visited' : List Nat}
    (h : Visits nodes stack visited) (h' : Visits nodes stack visited') : visited = visited' := by
  induction h generalizing visited' with
  | done =>
    cases h'
    rfl
  | visit hnode _ ih =>
    cases h' with
    | visit hnode' hrest =>
      cases hnode.symm.trans hnode'
      rw [ih hrest]

/-- A run of a pass over nodes: the results for the children of the next node have to be in
the table already, and the result for the node is added behind them. -/
inductive ForwardPass {β : Type} (step : Nat → Node β → β) :
    List (Node Nat) → Array β → Array β → Prop
  | done {table : Array β} : ForwardPass step [] table table
  | next {node : Node Nat} {nodes : List (Node Nat)} {table table' : Array β} {results : Node β} :
    (node.map fun c => table[c]?) = results.map some →
      ForwardPass step nodes (table.push (step table.size results)) table' →
        ForwardPass step (node :: nodes) table table'

theorem Node.map_map {ι κ μ : Type} (f : ι → κ) (g : κ → μ) (node : Node ι) :
    (node.map f).map g = node.map fun c => g (f c) := by
  cases node with
  | bits | wrap => rfl
  | collect collection first rest =>
    rw [map, map, map, List.map_map]
    rfl

theorem WellFormed.child_lt_of_append {nodes before after : List (Node Nat)} {node : Node Nat}
    {root c : Nat} (h : WellFormed nodes root) (hnodes : nodes = before ++ node :: after)
    (hc : c ∈ node.children) : c < before.length := by
  refine h.child_lt ?_ hc
  rw [hnodes, List.getElem?_append_right (Nat.le_refl _), Nat.sub_self]
  rfl

/-- A pass over the nodes of a tree finds the result for each child in the table. -/
theorem forwardPass_foldFrom {β : Type} [Inhabited β] (step : Nat → Node β → β)
    {nodes before after : List (Node Nat)} {root : Nat} (h : WellFormed nodes root)
    (hnodes : nodes = before ++ after) :
    ForwardPass step after (Tree.foldFrom step before #[]) (Tree.foldFrom step nodes #[]) := by
  induction after generalizing before with
  | nil =>
    rw [hnodes, List.append_nil]
    exact .done
  | cons node after ih =>
    have hrest := ih (hnodes.trans (List.append_cons ..))
    rw [Tree.foldFrom_append] at hrest
    refine .next ?_ hrest
    rw [Node.map_map]
    refine Node.map_congr fun c hc => ?_
    have hc : c < (Tree.foldFrom step before (#[] : Array β)).size := by
      rw [Tree.size_foldFrom, List.size_toArray, List.length_nil, Nat.zero_add]
      exact h.child_lt_of_append hnodes hc
    rw [Array.getElem?_eq_getElem hc, Array.getD_eq_getD_getElem?, Array.getElem?_eq_getElem hc,
      Option.getD_some]

namespace Tree

variable (t : Tree)

theorem getElem?_foldFrom_root {β : Type} [Inhabited β] (step : Nat → Node β → β) :
    (foldFrom step t.nodes #[])[t.root]? = some (t.fold step) := by
  have hroot : t.root < (foldFrom step t.nodes (#[] : Array β)).size := by
    rw [size_foldFrom, List.size_toArray, List.length_nil, Nat.zero_add]
    exact t.root_lt
  rw [fold, Array.getD_eq_getD_getElem?, Array.getElem?_eq_getElem hroot, Option.getD_some]

/-! ### The walk -/

/-- The node at an index, followed by what is below its children, in order. -/
def preorderFrom (i : Nat) : List Nat :=
  t.resultAt preorderStep i

variable {t}

theorem preorderFrom_eq {i : Nat} {node : Node Nat} (h : t.nodes[i]? = some node) :
    t.preorderFrom i = i :: node.children.flatMap t.preorderFrom :=
  resultAt_preorderStep h

theorem walk_eq (t : Tree) : t.walk = t.preorderFrom t.root :=
  t.walk_eq_preorder

/-- What lists some entries for each node and goes on with its children lists the entries of
all nodes below a node in the order of the traversal. -/
theorem eq_flatMap_preorderFrom {α : Type} {order entries : Nat → List α}
    (h : ∀ i node, t.nodes[i]? = some node → order i = entries i ++ node.children.flatMap order)
    {i : Nat} (hi : i < t.nodes.length) : order i = (t.preorderFrom i).flatMap entries := by
  induction i, hi using children_induction with
  | step i node hnode ih =>
    rw [h i node hnode, preorderFrom_eq hnode, List.flatMap_cons, List.flatMap_assoc]
    exact congrArg (entries i ++ ·) (List.flatMap_congr ih)

/-- If a run can be continued in front of any stack by the list for each of some indices, then
by the lists for all of them. -/
theorem visits_flatMap {nodes : List (Node Nat)} {order : Nat → List Nat} {top stack : List Nat}
    {visited : List Nat}
    (htop : ∀ i ∈ top, ∀ {stack visited : List Nat}, Visits nodes stack visited →
      Visits nodes (i :: stack) (order i ++ visited))
    (h : Visits nodes stack visited) :
    Visits nodes (top ++ stack) (top.flatMap order ++ visited) := by
  induction top with
  | nil => exact h
  | cons i top ih =>
    rw [List.flatMap_cons, List.append_assoc]
    exact htop i (by simp) (ih fun j hj => htop j (by simp [hj]))

/-- A run continues in front of a stack with what is below the index on top of it. -/
theorem visits_preorderFrom {i : Nat} (hi : i < t.nodes.length) {stack visited : List Nat}
    (h : Visits t.nodes stack visited) :
    Visits t.nodes (i :: stack) (t.preorderFrom i ++ visited) := by
  induction i, hi using children_induction generalizing stack visited with
  | step i node hnode ih =>
    rw [preorderFrom_eq hnode]
    exact .visit hnode (visits_flatMap (fun c hc _ _ hrest => ih c hc hrest) h)

/-- The walk ends without looking up an index in vain. -/
theorem visits_walk (t : Tree) : Visits t.nodes [t.root] t.walk := by
  have hvisits := visits_preorderFrom t.root_lt .done
  rwa [List.append_nil, ← walk_eq] at hvisits

/-! ### Blocks of the walk -/

/-- What is listed for a node is the node with all that stands below it. -/
theorem mem_preorderFrom_iff {i j : Nat} (hi : i < t.nodes.length) :
    j ∈ t.preorderFrom i ↔ Below t.nodes j i := by
  induction i, hi using children_induction with
  | step i node hnode ih =>
    rw [preorderFrom_eq hnode, List.mem_cons, List.mem_flatMap, below_iff hnode]
    exact or_congr_right (exists_congr fun c => and_congr_right fun hc => ih c hc)

theorem preorderFrom_infix_of_descent {i k : Nat} {steps : List (Nat × Nat)}
    (h : Descent t.nodes i steps k) : t.preorderFrom k <:+: t.preorderFrom i := by
  induction h with
  | here => exact List.infix_refl _
  | down hc _ ih =>
    obtain ⟨node, hnode, hchild⟩ := childAt?_eq_some_iff.1 hc
    refine ih.trans ?_
    rw [preorderFrom_eq hnode, List.flatMap_def]
    refine List.IsInfix.trans (List.infix_of_mem_flatten ?_) (List.suffix_cons ..).isInfix
    exact List.mem_map_of_mem (List.mem_of_getElem? hchild)

/-- The walk visits what is below a node without a gap. -/
theorem preorderFrom_infix_walk {i : Nat} (hi : i < t.nodes.length) :
    t.preorderFrom i <:+: t.walk := by
  obtain ⟨steps, hsteps⟩ := t.wellFormed.exists_descent hi
  rw [walk_eq]
  exact preorderFrom_infix_of_descent hsteps

theorem nodup_walk (t : Tree) : t.walk.Nodup :=
  t.walk_perm.nodup_iff.2 List.nodup_range

theorem nodup_preorderFrom {i : Nat} (hi : i < t.nodes.length) : (t.preorderFrom i).Nodup :=
  t.nodup_walk.sublist (preorderFrom_infix_walk hi).sublist

/-- Behind a node, what stands below it is listed. -/
theorem mem_tail_preorderFrom_iff {i j : Nat} (hi : i < t.nodes.length) :
    j ∈ (t.preorderFrom i).tail ↔ Below t.nodes j i ∧ j ≠ i := by
  have hnode : t.nodes[i]? = some t.nodes[i] := List.getElem?_eq_getElem hi
  have hnodup := nodup_preorderFrom hi
  rw [preorderFrom_eq hnode, List.nodup_cons] at hnodup
  rw [← mem_preorderFrom_iff hi, preorderFrom_eq hnode, List.tail_cons, List.mem_cons]
  constructor
  · intro hj
    refine ⟨.inr hj, ?_⟩
    rintro rfl
    exact hnodup.1 hj
  · rintro ⟨hj, hne⟩
    exact hj.resolve_left hne

theorem le_of_below {i j : Nat} (hi : i < t.nodes.length) (h : Below t.nodes j i) : j ≤ i := by
  obtain ⟨steps, hsteps⟩ := (below_iff_exists_descent t.wellFormed hi).1 h
  have hle := hsteps.add_length_le t.wellFormed
  omega

/-- A node is listed before all nodes that stand below it. -/
theorem pairwise_preorderFrom {i : Nat} (hi : i < t.nodes.length) :
    (t.preorderFrom i).Pairwise fun a b => ¬ Below t.nodes a b := by
  induction i, hi using children_induction with
  | step i node hnode ih =>
    have hnodup := nodup_preorderFrom (List.getElem?_eq_some_iff.1 hnode).1
    rw [preorderFrom_eq hnode, List.nodup_cons, List.nodup_flatMap] at hnodup
    rw [preorderFrom_eq hnode, List.pairwise_cons, List.pairwise_flatMap]
    refine ⟨fun b hb hbelow => ?_, ih, ?_⟩
    · obtain ⟨c, hc, hbc⟩ := List.mem_flatMap.1 hb
      have hlt := child_lt_length hnode hc
      have hble := le_of_below hlt ((mem_preorderFrom_iff hlt).1 hbc)
      have hile := le_of_below (Nat.lt_of_le_of_lt hble hlt) hbelow
      have := t.wellFormed.child_lt hnode hc
      omega
    · -- nothing is listed for two children
      refine (List.Pairwise.and_mem.1 hnodup.2.2).imp ?_
      rintro c d ⟨hc, hd, hdisjoint⟩ a ha b hb hbelow
      refine hdisjoint ha ((mem_preorderFrom_iff (child_lt_length hnode hd)).2 (hbelow.trans ?_))
      exact (mem_preorderFrom_iff (child_lt_length hnode hd)).1 hb

/-! ### The depth -/

/-- The largest of some numbers. -/
theorem exists_foldl_max_eq {l : List Nat} (h : l ≠ []) :
    ∃ m ∈ l, l.foldl max 0 = m ∧ ∀ b ∈ l, b ≤ m := by
  obtain ⟨m, hm⟩ := Option.ne_none_iff_exists'.1 (mt List.max?_eq_none_iff.1 h)
  obtain ⟨hmem, hle⟩ := List.max?_eq_some_iff.1 hm
  refine ⟨m, hmem, ?_, hle⟩
  rw [List.foldl_max, hm, Option.getD_some, Nat.zero_max]

theorem resultAt_depthStep {i : Nat} {node : Node Nat} (h : t.nodes[i]? = some node) :
    t.resultAt depthStep i = 1 + (node.children.map (t.resultAt depthStep)).foldl max 0 := by
  rw [t.resultAt_eq depthStep h, depthStep, Node.children_map]

/-- No way down is longer than the depth of the node where it starts. -/
theorem length_lt_depth {i k : Nat} {steps : List (Nat × Nat)} (h : Descent t.nodes i steps k) :
    steps.length + 1 ≤ t.resultAt depthStep i := by
  induction h with
  | here hi =>
    rw [resultAt_depthStep (List.getElem?_eq_getElem hi), List.length_nil]
    omega
  | @down i p c k steps hc _ ih =>
    obtain ⟨node, hnode, hchild⟩ := childAt?_eq_some_iff.1 hc
    have hmem : t.resultAt depthStep c ∈ node.children.map (t.resultAt depthStep) :=
      List.mem_map_of_mem (List.mem_of_getElem? hchild)
    obtain ⟨m, -, hm, hle⟩ := exists_foldl_max_eq (List.ne_nil_of_mem hmem)
    have := hle _ hmem
    rw [resultAt_depthStep hnode, hm, List.length_cons]
    omega

/-- A way down to a leaf is as long as the depth of the node where it starts. -/
theorem exists_descent_to_leaf {i : Nat} (hi : i < t.nodes.length) :
    ∃ steps k, Descent t.nodes i steps k ∧ (∀ c, ¬ IsChild t.nodes c k) ∧
      t.resultAt depthStep i = steps.length + 1 := by
  induction i, hi using children_induction with
  | step i node hnode ih =>
    rw [resultAt_depthStep hnode]
    by_cases hleaf : node.children = []
    · refine ⟨[], i, .here (List.getElem?_eq_some_iff.1 hnode).1, ?_, by rw [hleaf]; rfl⟩
      rintro c ⟨node', hnode', hc⟩
      cases hnode.symm.trans hnode'
      rw [hleaf] at hc
      cases hc
    · obtain ⟨m, hmem, hm, -⟩ := exists_foldl_max_eq
        (mt List.map_eq_nil_iff.1 hleaf : node.children.map (t.resultAt depthStep) ≠ [])
      obtain ⟨c, hc, rfl⟩ := List.mem_map.1 hmem
      obtain ⟨p, hp⟩ := List.mem_iff_getElem?.1 hc
      obtain ⟨steps, k, hsteps, hk, hlength⟩ := ih c hc
      refine ⟨(i, p) :: steps, k, .down (childAt?_eq_some_iff.2 ⟨_, hnode, hp⟩) hsteps, hk, ?_⟩
      rw [hm, hlength, List.length_cons]
      omega

/-- The depth of a tree is the number of nodes on the longest way from the root to a leaf. -/
theorem depth_isGreatest (t : Tree) :
    IsGreatest {n | ∃ steps k, Descent t.nodes t.root steps k ∧
      (∀ c, ¬ IsChild t.nodes c k) ∧ n = steps.length + 1} t.depth := by
  constructor
  · exact exists_descent_to_leaf t.root_lt
  · rintro n ⟨steps, k, hsteps, -, rfl⟩
    exact length_lt_depth hsteps

end Tree

/-- The walk through a tree ends, looks up no index in vain, and lists the nodes as the
recursion from the root does: each node once, before all that stands below it, which follows
without a gap. The pass that computes the depth reads no result before it is there, and the
depth is the number of nodes on the longest way from the root to a leaf. -/
theorem traversals_exact (t : Tree) :
    (∀ visited, Visits t.nodes [t.root] visited ↔ visited = t.walk) ∧
      (t.walk = t.preorderFrom t.root ∧ ∀ i node, t.nodes[i]? = some node →
        t.preorderFrom i = i :: node.children.flatMap t.preorderFrom) ∧
      t.walk.Perm (List.range t.size) ∧
      t.walk.Pairwise (fun a b => ¬ Below t.nodes a b) ∧
      (∀ i < t.size, t.preorderFrom i <:+: t.walk ∧
        ∀ j, j ∈ t.preorderFrom i ↔ Below t.nodes j i) ∧
      (∃ depths, ForwardPass depthStep t.nodes #[] depths ∧ depths[t.root]? = some t.depth) ∧
      IsGreatest {n | ∃ steps k, Descent t.nodes t.root steps k ∧
        (∀ c, ¬ IsChild t.nodes c k) ∧ n = steps.length + 1} t.depth := by
  refine ⟨fun visited => ?_, ⟨t.walk_eq, fun i node => Tree.preorderFrom_eq⟩, t.walk_perm, ?_, ?_,
    ?_, t.depth_isGreatest⟩
  · constructor
    · exact fun h => h.unique t.visits_walk
    · rintro rfl
      exact t.visits_walk
  · rw [t.walk_eq]
    exact Tree.pairwise_preorderFrom t.root_lt
  · exact fun i hi => ⟨Tree.preorderFrom_infix_walk hi, fun j => Tree.mem_preorderFrom_iff hi⟩
  · have hpass := forwardPass_foldFrom depthStep t.wellFormed (List.nil_append t.nodes).symm
    exact ⟨_, hpass, t.getElem?_foldFrom_root depthStep⟩

/-- The members of a group may stand behind one another in any order. -/
theorem traversals_exact_of_group :
    ∃ t, Tree.ofNodes? [.bits 1, .wrap .new 0 {}, .bits 2, .collect .group 2 [1]] 3 = .ok t ∧
      Visits t.nodes [3] [3, 2, 1, 0] ∧ t.preorderFrom 1 <:+: [3, 2, 1, 0] ∧ t.depth = 3 := by
  obtain ⟨t, ht, hwalk, hroot, hdepth⟩ : ∃ t,
      Tree.ofNodes? [.bits 1, .wrap .new 0 {}, .bits 2, .collect .group 2 [1]] 3 = .ok t ∧
        t.walk = [3, 2, 1, 0] ∧ t.root = 3 ∧ t.depth = 3 := ⟨_, rfl, rfl, rfl, rfl⟩
  obtain ⟨hvisits, -, hperm, -, hblocks, -⟩ := traversals_exact t
  have hsize : [3, 2, 1, 0].length = t.size := by
    rw [← hwalk, hperm.length_eq, List.length_range]
  rw [List.length_cons, List.length_cons, List.length_cons, List.length_singleton] at hsize
  refine ⟨t, ht, ?_, ?_, hdepth⟩
  · have hrun := (hvisits t.walk).2 rfl
    rwa [hroot, hwalk] at hrun
  · rw [← hwalk]
    exact (hblocks 1 (by omega)).1

end StreamTypes.River
