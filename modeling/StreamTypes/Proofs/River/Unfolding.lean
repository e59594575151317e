import StreamTypes.River.Tree
import StreamTypes.Proofs.River.Expression

/-!
# Unfolding a tree

A fold over the nodes of a tree computes the results from the first node to the last.
Since children come before their parents, the result for a node is the step applied to
the results for its children, so a fold is the recursion over the type that the tree
stands for. That type is also described independently of any fold, by a relation that
follows the references of the nodes.

## Main definitions

- `Tree.resultAt` — the result of a fold for the node at an index
- `Unfolds` — the node at an index is the root of a type

## Main statements

- `Tree.resultAt_eq` — the recursion equation of a fold
- `Tree.children_induction` — an induction from the children of a node to the node
- `Unfolds.unique` — a node is the root of one type only
- `Tree.unfolds_iff` — the type that a tree stands for is the one it unfolds to
- `Tree.depth_eq` — a tree is as deep as its type
-/

namespace StreamTypes.River

variable {β : Type} [Inhabited β] {ι κ : Type}

/-! ### References -/

theorem mem_referencesFrom {nodes : List (Node ι)} {start i : Nat} {node : Node ι} {c : ι}
    (hnode : nodes[i]? = some node) (hc : c ∈ node.children) :
    (start + i, c) ∈ referencesFrom start nodes := by
  induction nodes generalizing start i with
  | nil => simp at hnode
  | cons first nodes ih =>
    rw [referencesFrom, List.mem_append]
    cases i with
    | zero =>
      rw [List.getElem?_cons_zero, Option.some.injEq] at hnode
      exact .inl (List.mem_map.2 ⟨c, hnode ▸ hc, rfl⟩)
    | succ i =>
      rw [List.getElem?_cons_succ] at hnode
      have hindex : start + (i + 1) = start + 1 + i := by omega
      rw [hindex]
      exact .inr (ih hnode)

/-- Children come before their parents. -/
theorem WellFormed.child_lt {nodes : List (Node Nat)} {root i c : Nat} {node : Node Nat}
    (h : WellFormed nodes root) (hnode : nodes[i]? = some node) (hc : c ∈ node.children) :
    c < i := by
  have hmem : (0 + i, c) ∈ references nodes := mem_referencesFrom hnode hc
  rw [Nat.zero_add] at hmem
  exact h.earlier _ hmem

theorem Node.map_congr {f g : ι → κ} {node : Node ι} (h : ∀ c ∈ node.children, f c = g c) :
    node.map f = node.map g := by
  cases node with
  | bits => rfl
  | wrap wrapper child params => rw [map, map, h child (by simp [children])]
  | collect collection first rest =>
    have hrest : rest.map f = rest.map g :=
      List.map_congr_left fun c hc => h c (by simp [children, hc])
    rw [map, map, h first (by simp [children]), hrest]

namespace Tree

/-! ### Folds -/

section
variable (step : Nat → Node β → β)

theorem size_foldFrom (nodes : List (Node Nat)) (done : Array β) :
    (foldFrom step nodes done).size = done.size + nodes.length := by
  induction nodes generalizing done with
  | nil => rfl
  | cons node nodes ih =>
    rw [foldFrom, ih, Array.size_push, List.length_cons]
    omega

theorem foldFrom_append (xs ys : List (Node Nat)) (done : Array β) :
    foldFrom step (xs ++ ys) done = foldFrom step ys (foldFrom step xs done) := by
  induction xs generalizing done with
  | nil => rfl
  | cons node xs ih => rw [List.cons_append, foldFrom, ih, foldFrom]

/-- Results that are done stay. -/
theorem getD_foldFrom_of_lt (nodes : List (Node Nat)) (done : Array β) {i : Nat}
    (hi : i < done.size) : (foldFrom step nodes done).getD i default = done.getD i default := by
  induction nodes generalizing done with
  | nil => rfl
  | cons node nodes ih =>
    rw [foldFrom, ih _ (by rw [Array.size_push]; omega)]
    simp [Array.getD_eq_getD_getElem?, Array.getElem?_push, Nat.ne_of_lt hi]

/-- The result for the node at an index. -/
def resultAt (t : Tree) (index : Nat) : β :=
  (foldFrom step t.nodes #[]).getD index default

/-- The result for a node is the step applied to the results for its children. -/
theorem resultAt_eq (t : Tree) {i : Nat} {node : Node Nat} (h : t.nodes[i]? = some node) :
    t.resultAt step i = step i (node.map (t.resultAt step)) := by
  obtain ⟨hlt, hget⟩ := List.getElem?_eq_some_iff.1 h
  obtain ⟨before, after, hnodes, hlen⟩ :
      ∃ before after, t.nodes = before ++ node :: after ∧ before.length = i := by
    refine ⟨t.nodes.take i, t.nodes.drop (i + 1), ?_, by rw [List.length_take]; omega⟩
    rw [← hget, List.cons_getElem_drop_succ, List.take_append_drop]
  have hsize : (foldFrom step before (#[] : Array β)).size = i := by
    rw [size_foldFrom, hlen]
    exact Nat.zero_add i
  -- the node itself and those behind it change no result for a node before it
  have hresult : ∀ j, j < i →
      t.resultAt step j = (foldFrom step before #[]).getD j default := by
    intro j hj
    rw [resultAt, hnodes, foldFrom_append, getD_foldFrom_of_lt step _ _ (by omega)]
  have hchildren : node.map (fun c => (foldFrom step before #[]).getD c default) =
      node.map (t.resultAt step) := by
    refine Node.map_congr fun c hc => ?_
    exact (hresult c (t.wellFormed.child_lt h hc)).symm
  rw [resultAt, hnodes, foldFrom_append, foldFrom,
    getD_foldFrom_of_lt step _ _ (by rw [Array.size_push]; omega), hchildren, hsize]
  rw [Array.getD_eq_getD_getElem?, Array.getElem?_push, if_pos hsize.symm, Option.getD_some]

end

end Tree

/-! ### The type a node stands for -/

mutual

/-- The node at an index is the root of a type. -/
inductive Unfolds (nodes : List (Node Nat)) : Nat → Term → Prop
  | bits {i width : Nat} :
      nodes[i]? = some (.bits width) → Unfolds nodes i (.bits width)
  | wrap {i child : Nat} {wrapper : Wrapper} {params : Params} {term : Term} :
      nodes[i]? = some (.wrap wrapper child params) → Unfolds nodes child term →
      Unfolds nodes i (.wrap wrapper term params)
  | collect {i first : Nat} {collection : Collection} {rest : List Nat} {term : Term}
      {terms : List Term} :
      nodes[i]? = some (.collect collection first rest) → Unfolds nodes first term →
      UnfoldsRest nodes rest terms → Unfolds nodes i (.collect collection term terms)

/-- The nodes at a list of indices are the roots of a list of types. -/
inductive UnfoldsRest (nodes : List (Node Nat)) : List Nat → List Term → Prop
  | nil : UnfoldsRest nodes [] []
  | cons {i : Nat} {rest : List Nat} {term : Term} {terms : List Term} :
      Unfolds nodes i term → UnfoldsRest nodes rest terms →
      UnfoldsRest nodes (i :: rest) (term :: terms)

end

mutual

theorem Unfolds.unique {nodes : List (Node Nat)} {i : Nat} {term term' : Term} :
    Unfolds nodes i term → Unfolds nodes i term' → term = term'
  | .bits h, .bits h' => by
    cases h.symm.trans h'
    rfl
  | .wrap h hchild, .wrap h' hchild' => by
    cases h.symm.trans h'
    rw [hchild.unique hchild']
  | .collect h hfirst hrest, .collect h' hfirst' hrest' => by
    cases h.symm.trans h'
    rw [hfirst.unique hfirst', hrest.unique hrest']
  | .bits h, .wrap h' _ | .bits h, .collect h' _ _ | .wrap h _, .bits h'
  | .wrap h _, .collect h' _ _ | .collect h _ _, .bits h' | .collect h _ _, .wrap h' _ =>
    nomatch h.symm.trans h'

theorem UnfoldsRest.unique {nodes : List (Node Nat)} {indices : List Nat}
    {terms terms' : List Term} :
    UnfoldsRest nodes indices terms → UnfoldsRest nodes indices terms' → terms = terms'
  | .nil, .nil => rfl
  | .cons h hrest, .cons h' hrest' => by rw [h.unique h', hrest.unique hrest']

end

theorem UnfoldsRest.of_forall {nodes : List (Node Nat)} {indices : List Nat} {f : Nat → Term}
    (h : ∀ i ∈ indices, Unfolds nodes i (f i)) :
    UnfoldsRest nodes indices (indices.map f) := by
  induction indices with
  | nil => exact .nil
  | cons i indices ih =>
    exact .cons (h i (by simp)) (ih fun j hj => h j (by simp [hj]))

namespace Tree

theorem child_lt_length {t : Tree} {i c : Nat} {node : Node Nat} (h : t.nodes[i]? = some node)
    (hc : c ∈ node.children) : c < t.nodes.length :=
  Nat.lt_trans (t.wellFormed.child_lt h hc) (List.getElem?_eq_some_iff.1 h).1

/-- What holds of each node if it holds of its children holds of all nodes of a tree. -/
@[elab_as_elim]
theorem children_induction {t : Tree} {P : (i : Nat) → i < t.nodes.length → Prop}
    (step : ∀ i node (h : t.nodes[i]? = some node),
      (∀ c (hc : c ∈ node.children), P c (child_lt_length h hc)) →
        P i (List.getElem?_eq_some_iff.1 h).1)
    (i : Nat) (hi : i < t.nodes.length) : P i hi := by
  induction i using Nat.strong_induction_on with
  | _ i ih =>
    have hnode : t.nodes[i]? = some t.nodes[i] := List.getElem?_eq_getElem hi
    exact step i _ hnode fun c hc =>
      ih c (t.wellFormed.child_lt hnode hc) (child_lt_length hnode hc)

/-- Every node of a tree is the root of the type that the fold computes for it. -/
theorem unfolds_resultAt (t : Tree) (i : Nat) (hi : i < t.nodes.length) :
    Unfolds t.nodes i (t.resultAt (fun _ => Term.ofNode) i) := by
  induction i, hi using children_induction with
  | step i node hnode ih =>
    rw [resultAt_eq _ t hnode]
    cases node with
    | bits width => exact .bits hnode
    | wrap wrapper child params => exact .wrap hnode (ih child (by simp [Node.children]))
    | collect collection first rest =>
      refine .collect hnode (ih first (by simp [Node.children])) (.of_forall fun c hc => ?_)
      exact ih c (by simp [Node.children, hc])

theorem root_lt (t : Tree) : t.root < t.nodes.length := by
  rw [← t.wellFormed.root_last]
  exact Nat.lt_succ_self _

/-- The type that a tree stands for is the one that its root unfolds to. -/
theorem unfolds_iff (t : Tree) {term : Term} :
    Unfolds t.nodes t.root term ↔ t.term = term := by
  constructor
  · exact (t.unfolds_resultAt t.root t.root_lt).unique
  · rintro rfl
    exact t.unfolds_resultAt t.root t.root_lt

end Tree

/-- The step of the depth of a tree. -/
def depthStep (_ : Nat) (node : Node Nat) : Nat :=
  1 + node.children.foldl max 0

mutual

theorem Unfolds.depth_eq {t : Tree} {i : Nat} {term : Term} :
    Unfolds t.nodes i term → t.resultAt depthStep i = term.depth
  | .bits h => by
    rw [t.resultAt_eq _ h]
    rfl
  | .wrap h hchild => by
    rw [t.resultAt_eq _ h, depthStep, Node.map, Node.children, List.foldl_cons, List.foldl_nil,
      hchild.depth_eq, Nat.zero_max, Term.depth]
  | .collect h hfirst hrest => by
    rw [t.resultAt_eq _ h, depthStep, Node.map, Node.children, List.foldl_cons,
      hfirst.depth_eq, Nat.zero_max, hrest.depth_eq, Term.depth]

theorem UnfoldsRest.depth_eq {t : Tree} {indices : List Nat} {terms : List Term} {n : Nat} :
    UnfoldsRest t.nodes indices terms →
      (indices.map (t.resultAt depthStep)).foldl max n = max n (Term.depthOfRest terms)
  | .nil => (Nat.max_zero n).symm
  | .cons h hrest => by
    rw [List.map_cons, List.foldl_cons, hrest.depth_eq, h.depth_eq, Term.depthOfRest,
      Nat.max_assoc]

end

/-- A tree is as deep as the type that it stands for. -/
theorem Tree.depth_eq (t : Tree) : t.depth = t.term.depth :=
  (t.unfolds_resultAt t.root t.root_lt).depth_eq

end StreamTypes.River
