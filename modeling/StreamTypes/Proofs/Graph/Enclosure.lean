import StreamTypes.Proofs.Graph.Order

/-!
# Clusters and scopes

A form of kind `Root`, `Dim`, `New` or `Rev` is a scope: its cluster follows its own node and
holds what is declared below it. Other forms add nothing to the clusters around a node, so these
are the scopes that are left on the way down from the root. The way is followed from a node to
its children in any order, so moving siblings does not change what encloses them.

## Main definitions

- `Item.Within` — a list of items that stands in another one
- `Item.Encloses` — the clusters around the declaration of a node
- `River.Tree.isScope`, `River.Tree.clustersAlong` — the scopes of a tree, and those on a way down
- `River.Tree.ClustersPlaced` — each cluster of a list follows the node that it belongs to

## Main statements

- `River.Tree.clustersOf_itemsFrom` — each scope has one cluster
- `River.Tree.encloses_itemsFrom_iff` — the clusters around a node
- `River.Tree.ClustersPlaced.within` — where a cluster stands and what it holds
- `River.clusters_mirror_scopes` — the clusters of a graph
-/

namespace StreamTypes

open River (Kind Node Tree)

namespace Item

/-! ### Places in a list of items -/

/-- A list of items stands in another one: it is this list, or stands in a cluster of it. -/
inductive Within (items : List Item) : List Item → Prop
  | here : Within items items
  | inside {decl : ClusterDecl} {inner outer : List Item} :
    .cluster decl inner ∈ outer → Within items inner → Within items outer

/-- The declaration of a node stands in a list of items, in some clusters, the outermost one
first. -/
inductive Encloses : List Item → List ClusterDecl → NodeDecl → Prop
  | here {items : List Item} {decl : NodeDecl} : .node decl ∈ items → Encloses items [] decl
  | inside {cluster : ClusterDecl} {inner outer : List Item} {chain : List ClusterDecl}
    {decl : NodeDecl} : .cluster cluster inner ∈ outer → Encloses inner chain decl →
      Encloses outer (cluster :: chain) decl

variable {chain : List ClusterDecl} {decl : NodeDecl}

theorem encloses_cons_node {own : NodeDecl} {items : List Item} :
    Encloses (.node own :: items) chain decl ↔
      (decl = own ∧ chain = []) ∨ Encloses items chain decl := by
  constructor
  · intro h
    cases h with
    | here hmem =>
      rcases List.mem_cons.1 hmem with heq | hmem
      · cases heq
        exact .inl ⟨rfl, rfl⟩
      · exact .inr (.here hmem)
    | inside hmem hinner =>
      rcases List.mem_cons.1 hmem with heq | hmem
      · cases heq
      · exact .inr (.inside hmem hinner)
  · rintro (⟨rfl, rfl⟩ | h)
    · exact .here (List.mem_cons_self ..)
    · cases h with
      | here hmem => exact .here (List.mem_cons_of_mem _ hmem)
      | inside hmem hinner => exact .inside (List.mem_cons_of_mem _ hmem) hinner

theorem encloses_flatMap {α : Type} {f : α → List Item} {l : List α} :
    Encloses (l.flatMap f) chain decl ↔ ∃ a ∈ l, Encloses (f a) chain decl := by
  constructor
  · intro h
    cases h with
    | here hmem =>
      obtain ⟨a, ha, hmem⟩ := List.mem_flatMap.1 hmem
      exact ⟨a, ha, .here hmem⟩
    | inside hmem hinner =>
      obtain ⟨a, ha, hmem⟩ := List.mem_flatMap.1 hmem
      exact ⟨a, ha, .inside hmem hinner⟩
  · rintro ⟨a, ha, h⟩
    cases h with
    | here hmem => exact .here (List.mem_flatMap.2 ⟨a, ha, hmem⟩)
    | inside hmem hinner => exact .inside (List.mem_flatMap.2 ⟨a, ha, hmem⟩) hinner

/-- A cluster adds itself to what encloses the nodes in it. -/
theorem encloses_cluster {cluster : ClusterDecl} {items : List Item} :
    Encloses [.cluster cluster items] chain decl ↔
      ∃ rest, chain = cluster :: rest ∧ Encloses items rest decl := by
  constructor
  · intro h
    cases h with
    | here hmem => cases List.mem_singleton.1 hmem
    | inside hmem hinner =>
      cases List.mem_singleton.1 hmem
      exact ⟨_, rfl, hinner⟩
  · rintro ⟨rest, rfl, h⟩
    exact .inside (List.mem_singleton_self _) h

mutual

/-- A cluster that is listed stands in some list. -/
theorem exists_within_of_mem_clusters {decl : ClusterDecl} : (item : Item) → (outer : List Item) →
    item ∈ outer → decl ∈ clusters item →
      ∃ items inner, Within items outer ∧ .cluster decl inner ∈ items
  | .node own, outer, hmem, h => by
    rw [clusters] at h
    cases h
  | .cluster own inner, outer, hmem, h => by
    rw [clusters, List.mem_cons] at h
    rcases h with rfl | h
    · exact ⟨outer, inner, .here, hmem⟩
    · obtain ⟨items, inner', hwithin, hcluster⟩ :=
        exists_within_of_mem_clustersOf inner inner (fun _ => id) h
      exact ⟨items, inner', .inside hmem hwithin, hcluster⟩

theorem exists_within_of_mem_clustersOf {decl : ClusterDecl} : (part outer : List Item) →
    (∀ item ∈ part, item ∈ outer) → decl ∈ clustersOf part →
      ∃ items inner, Within items outer ∧ .cluster decl inner ∈ items
  | [], outer, hsub, h => by
    rw [clustersOf] at h
    cases h
  | item :: part, outer, hsub, h => by
    rw [clustersOf, List.mem_append] at h
    rcases h with h | h
    · exact exists_within_of_mem_clusters item outer (hsub item (by simp)) h
    · exact exists_within_of_mem_clustersOf part outer (fun i hi => hsub i (by simp [hi])) h

end

theorem clustersOf_append (xs ys : List Item) :
    clustersOf (xs ++ ys) = clustersOf xs ++ clustersOf ys := by
  induction xs with
  | nil => rfl
  | cons x xs ih => rw [List.cons_append, clustersOf, clustersOf, ih, List.append_assoc]

theorem clustersOf_flatMap {α : Type} (f : α → List Item) (l : List α) :
    clustersOf (l.flatMap f) = l.flatMap fun a => clustersOf (f a) := by
  induction l with
  | nil => rfl
  | cons a l ih => rw [List.flatMap_cons, List.flatMap_cons, clustersOf_append, ih]

end Item

namespace River

theorem opensCluster_eq (kind : Kind) : opensCluster kind =
    [.wrap .root, .wrap .dim, .wrap .new, .wrap .rev].contains kind := by
  rcases kind with _ | (_ | _ | _ | _ | _) | (_ | _) <;> rfl

namespace Tree

section
variable (t : Tree)

/-- Whether the form at an index encloses what is below it. -/
def isScope (i : Nat) : Bool :=
  [.wrap .root, .wrap .dim, .wrap .new, .wrap .rev].contains (t.nodeAt i).kind

/-- The clusters of the scopes that are left on a way down. -/
def clustersAlong (steps : List (Nat × Nat)) : List ClusterDecl :=
  ((steps.map Prod.fst).filter t.isScope).map t.clusterAt

/-- What is declared below the node at an index. -/
def itemsBelow (i : Nat) : List Item :=
  ((t.nodeAt i).newLast t.isNew).children.flatMap t.itemsFrom

/-- Each cluster of a list of items follows the node of a scope, and holds what is declared
below it. -/
def ClustersPlaced (items : List Item) : Prop :=
  ∀ front decl inside behind, items = front ++ .cluster decl inside :: behind →
    ∃ i < t.size, t.isScope i = true ∧ decl = t.clusterAt i ∧ inside = t.itemsBelow i ∧
      ∃ before, front = before ++ [.node (t.declAt i)]

end

variable {t : Tree}

/-! ### Scopes -/

theorem clustered_eq {i : Nat} {node : Node Nat} (h : t.nodes[i]? = some node)
    (items : List Item) : clustered i node items =
      if t.isScope i then [.cluster (t.clusterAt i) items] else items := by
  rw [clustered, opensCluster_eq, isScope, clusterAt, nodeAt_eq h]

theorem itemsFrom_eq_cons {i : Nat} (hi : i < t.nodes.length) : t.itemsFrom i =
    .node (t.declAt i) ::
      if t.isScope i then [.cluster (t.clusterAt i) (t.itemsBelow i)] else t.itemsBelow i := by
  have hnode := getElem?_eq_nodeAt hi
  rw [itemsFrom_eq hnode, clustered_eq hnode, itemsBelow]

/-- The clusters below a node and its own, if it is a scope, in the order of declaration. -/
theorem clustersOf_itemsFrom {i : Nat} (hi : i < t.nodes.length) :
    Item.clustersOf (t.itemsFrom i) =
      ((t.newLast.preorderFrom i).filter t.isScope).map t.clusterAt := by
  rw [← List.flatMap_singleton' (t.newLast.preorderFrom i), List.filter_flatMap, List.map_flatMap]
  refine eq_flatMap_newLast (fun i => Item.clustersOf (t.itemsFrom i))
    (fun j node hnode => ?_) hi
  have hj : j < t.nodes.length := (List.getElem?_eq_some_iff.1 hnode).1
  rw [itemsFrom_eq_cons hj, Item.clustersOf, Item.clusters, List.nil_append, itemsBelow,
    nodeAt_eq hnode, List.filter_singleton]
  cases t.isScope j with
  | true => simp [Item.clustersOf, Item.clusters, Item.clustersOf_flatMap]
  | false => simp [Item.clustersOf_flatMap]

theorem clustersAlong_cons (i p : Nat) (steps : List (Nat × Nat)) :
    t.clustersAlong ((i, p) :: steps) =
      if t.isScope i then t.clusterAt i :: t.clustersAlong steps else t.clustersAlong steps := by
  rw [clustersAlong, List.map_cons, List.filter_cons]
  split <;> rfl

theorem mem_children_newLast {i c : Nat} :
    c ∈ ((t.nodeAt i).newLast t.isNew).children ↔ c ∈ (t.nodeAt i).children :=
  (Node.children_newLast_perm t.isNew _).mem_iff

theorem lt_length_of_mem_newLast {i c : Nat} (hi : i < t.nodes.length)
    (hc : c ∈ ((t.nodeAt i).newLast t.isNew).children) : c < t.nodes.length :=
  child_lt_length (getElem?_eq_nodeAt hi) (mem_children_newLast.1 hc)

/-! ### What encloses a node -/

section
variable {chain : List ClusterDecl} {decl : NodeDecl}

/-- What is declared for a node is the node itself, or is declared for a child, inside the
cluster of the node if it is a scope. -/
theorem encloses_itemsFrom {i : Nat} (hi : i < t.nodes.length) :
    Item.Encloses (t.itemsFrom i) chain decl ↔ (decl = t.declAt i ∧ chain = []) ∨
      ∃ c rest, c ∈ (t.nodeAt i).children ∧ Item.Encloses (t.itemsFrom c) rest decl ∧
        chain = if t.isScope i then t.clusterAt i :: rest else rest := by
  have hbelow : ∀ rest, Item.Encloses (t.itemsBelow i) rest decl ↔
      ∃ c ∈ (t.nodeAt i).children, Item.Encloses (t.itemsFrom c) rest decl := by
    intro rest
    rw [itemsBelow, Item.encloses_flatMap]
    exact exists_congr fun c => and_congr_left fun _ => mem_children_newLast
  rw [itemsFrom_eq_cons hi, Item.encloses_cons_node]
  refine or_congr_right ?_
  cases t.isScope i with
  | true =>
    rw [if_pos rfl, Item.encloses_cluster]
    simp only [hbelow, if_true]
    constructor
    · rintro ⟨rest, rfl, c, hc, h⟩
      exact ⟨c, rest, hc, h, rfl⟩
    · rintro ⟨c, rest, hc, h, rfl⟩
      exact ⟨rest, rfl, c, hc, h⟩
  | false =>
    rw [if_neg Bool.false_ne_true, hbelow]
    constructor
    · rintro ⟨c, hc, h⟩
      exact ⟨c, chain, hc, h, rfl⟩
    · rintro ⟨c, rest, hc, h, rfl⟩
      exact ⟨c, hc, h⟩

theorem encloses_of_descent {i k : Nat} {steps : List (Nat × Nat)}
    (h : Descent t.nodes i steps k) :
    Item.Encloses (t.itemsFrom i) (t.clustersAlong steps) (t.declAt k) := by
  induction h with
  | here hi => exact (encloses_itemsFrom hi).2 (.inl ⟨rfl, rfl⟩)
  | @down i p c k steps hc _ ih =>
    obtain ⟨node, hnode, hp⟩ := childAt?_eq_some_iff.1 hc
    refine (encloses_itemsFrom (lt_length_of_childAt? hc)).2 (.inr ⟨c, _, ?_, ih, ?_⟩)
    · rw [nodeAt_eq hnode]
      exact List.mem_of_getElem? hp
    · exact clustersAlong_cons i p steps

/-- The clusters around what is declared for a node and all that is below it are those of the
scopes on the way down. -/
theorem encloses_itemsFrom_iff {i : Nat} (hi : i < t.nodes.length) :
    Item.Encloses (t.itemsFrom i) chain decl ↔ ∃ steps k, Descent t.nodes i steps k ∧
      decl = t.declAt k ∧ chain = t.clustersAlong steps := by
  constructor
  · intro h
    induction i, hi using children_induction generalizing chain with
    | step i node hnode ih =>
      have hi : i < t.nodes.length := (List.getElem?_eq_some_iff.1 hnode).1
      rcases (encloses_itemsFrom hi).1 h with ⟨hdecl, hchain⟩ | ⟨c, rest, hc, hrest, hchain⟩
      · exact ⟨[], i, .here hi, hdecl, hchain⟩
      · rw [nodeAt_eq hnode] at hc
        obtain ⟨p, hp⟩ := List.mem_iff_getElem?.1 hc
        obtain ⟨steps, k, hsteps, hdecl, rfl⟩ := ih c hc hrest
        refine ⟨(i, p) :: steps, k, .down (childAt?_eq_some_iff.2 ⟨_, hnode, hp⟩) hsteps, hdecl, ?_⟩
        rw [hchain, clustersAlong_cons]
  · rintro ⟨steps, k, hsteps, rfl, rfl⟩
    exact encloses_of_descent hsteps

end

/-! ### Where clusters stand -/

theorem clustersPlaced_nil (t : Tree) : t.ClustersPlaced [] := by
  intro front decl inside behind h
  exact absurd h.symm (List.append_ne_nil_of_right_ne_nil front (List.cons_ne_nil _ _))

theorem clustersPlaced_append {xs ys : List Item} (hx : t.ClustersPlaced xs)
    (hy : t.ClustersPlaced ys) : t.ClustersPlaced (xs ++ ys) := by
  intro front decl inside behind h
  rcases List.append_eq_append_iff.1 h with ⟨front', rfl, hys⟩ | ⟨behind', hxs, hbehind⟩
  · obtain ⟨i, hi, hscope, hdecl, hinside, before, rfl⟩ := hy front' decl inside behind hys
    exact ⟨i, hi, hscope, hdecl, hinside, xs ++ before, (List.append_assoc ..).symm⟩
  · cases behind' with
    | nil =>
      -- the cluster would come first, but there is a node before it
      obtain ⟨i, -, -, -, -, before, hbefore⟩ := hy [] decl inside behind hbehind.symm
      exact absurd hbefore.symm (List.append_ne_nil_of_right_ne_nil before (List.cons_ne_nil _ _))
    | cons item behind' =>
      obtain ⟨rfl, -⟩ := List.cons.inj hbehind
      exact hx front decl inside behind' hxs

theorem clustersPlaced_flatMap {α : Type} {f : α → List Item} {l : List α}
    (h : ∀ a ∈ l, t.ClustersPlaced (f a)) : t.ClustersPlaced (l.flatMap f) := by
  induction l with
  | nil => exact clustersPlaced_nil t
  | cons a l ih =>
    rw [List.flatMap_cons]
    exact clustersPlaced_append (h a (by simp)) (ih fun b hb => h b (by simp [hb]))

theorem clustersPlaced_cons_node {items : List Item} (h : t.ClustersPlaced items)
    (own : NodeDecl) : t.ClustersPlaced (.node own :: items) := by
  intro front decl inside behind hcons
  cases front with
  | nil => cases hcons
  | cons item front =>
    obtain ⟨rfl, hitems⟩ := List.cons.inj hcons
    obtain ⟨i, hi, hscope, hdecl, hinside, before, rfl⟩ := h front decl inside behind hitems
    exact ⟨i, hi, hscope, hdecl, hinside, .node own :: before, rfl⟩

theorem clustersPlaced_of_isScope {i : Nat} (hi : i < t.size) (h : t.isScope i = true) :
    t.ClustersPlaced [.node (t.declAt i), .cluster (t.clusterAt i) (t.itemsBelow i)] := by
  intro front decl inside behind heq
  rcases front with _ | ⟨item, _ | ⟨item', front⟩⟩
  · cases heq
  · cases heq
    exact ⟨i, hi, h, rfl, rfl, [], rfl⟩
  · obtain ⟨-, hrest⟩ := List.cons.inj (List.cons.inj heq).2
    exact absurd hrest.symm (List.append_ne_nil_of_right_ne_nil front (List.cons_ne_nil _ _))

theorem clustersPlaced_itemsFrom {i : Nat} (hi : i < t.nodes.length) :
    t.ClustersPlaced (t.itemsFrom i) := by
  induction i, hi using children_induction with
  | step i node hnode ih =>
    have hi : i < t.nodes.length := (List.getElem?_eq_some_iff.1 hnode).1
    have hbelow : t.ClustersPlaced (t.itemsBelow i) := by
      refine clustersPlaced_flatMap fun c hc => ih c ?_
      rwa [mem_children_newLast, nodeAt_eq hnode] at hc
    rw [itemsFrom_eq_cons hi]
    cases hscope : t.isScope i with
    | true => exact clustersPlaced_of_isScope hi hscope
    | false => exact clustersPlaced_cons_node hbelow _

theorem clustersPlaced_itemsBelow {i : Nat} (hi : i < t.nodes.length) :
    t.ClustersPlaced (t.itemsBelow i) :=
  clustersPlaced_flatMap fun _ hc => clustersPlaced_itemsFrom (lt_length_of_mem_newLast hi hc)

/-- A cluster holds a list in which clusters have their places again. -/
theorem ClustersPlaced.within {items outer : List Item} (h : t.ClustersPlaced outer)
    (hwithin : Item.Within items outer) : t.ClustersPlaced items := by
  induction hwithin with
  | here => exact h
  | inside hmem _ ih =>
    obtain ⟨front, behind, hsplit⟩ := List.append_of_mem hmem
    obtain ⟨i, hi, -, -, rfl, -⟩ := h front _ _ behind hsplit
    exact ih (clustersPlaced_itemsBelow hi)

/-! ### What clusters hold -/

theorem mem_tail_newLast {i j : Nat} (hi : i < t.nodes.length) :
    j ∈ (t.newLast.preorderFrom i).tail ↔ Below t.nodes j i ∧ j ≠ i := by
  rw [mem_tail_preorderFrom_iff (by rwa [length_newLast]), below_newLast]

/-- What is declared below a node are the nodes that a traversal lists behind it. -/
theorem nodesOf_itemsBelow {i : Nat} (hi : i < t.nodes.length) :
    Item.nodesOf (t.itemsBelow i) = (t.newLast.preorderFrom i).tail.map t.declAt := by
  have hlist := congrArg List.tail (nodesOf_itemsFrom hi)
  rwa [itemsFrom_eq (getElem?_eq_nodeAt hi), Item.nodesOf, Item.nodes, Item.nodesOf_clustered,
    List.singleton_append, List.tail_cons, ← List.map_tail] at hlist

theorem clustersOf_itemsBelow {i : Nat} (hi : i < t.nodes.length) :
    Item.clustersOf (t.itemsBelow i) =
      ((t.newLast.preorderFrom i).tail.filter t.isScope).map t.clusterAt := by
  have hchild : ∀ c ∈ ((t.nodeAt i).newLast t.isNew).children,
      Item.clustersOf (t.itemsFrom c) =
        ((t.newLast.preorderFrom c).filter t.isScope).map t.clusterAt := by
    intro c hc
    exact clustersOf_itemsFrom (lt_length_of_mem_newLast hi hc)
  rw [itemsBelow, Item.clustersOf_flatMap, List.flatMap_congr hchild,
    preorderFrom_eq (getElem?_newLast (getElem?_eq_nodeAt hi)), List.tail_cons,
    List.filter_flatMap, List.map_flatMap]

/-- The form of a scope has a child, so there is something below it. -/
theorem itemsBelow_ne_nil {i : Nat} (hi : i < t.nodes.length) (h : t.isScope i = true) :
    t.itemsBelow i ≠ [] := by
  obtain ⟨c, hc⟩ : ∃ c, c ∈ (t.nodeAt i).children := by
    rw [isScope, ← opensCluster_eq] at h
    cases hnode : t.nodeAt i with
    | wrap wrapper child params => exact ⟨child, List.mem_singleton_self child⟩
    | bits | collect =>
      rw [hnode] at h
      cases h
  have hmoved := mem_children_newLast.2 hc
  intro hnil
  have hempty := List.flatMap_eq_nil_iff.1 hnil c hmoved
  rw [itemsFrom_eq_cons (lt_length_of_mem_newLast hi hmoved)] at hempty
  cases hempty

theorem clusters_graph_eq (t : Tree) :
    t.graph.clusters = (t.newLast.walk.filter t.isScope).map t.clusterAt := by
  rw [Graph.clusters, items_graph, clustersOf_itemsFrom t.root_lt, walk_eq]
  rfl

end Tree

/-- Each form of kind `Root`, `Dim`, `New` or `Rev` has one cluster. A cluster follows the node of
its form and holds, with their clusters, all nodes below it, of which there are some. The clusters
around a node, from the outside inwards, are those of the scopes on the way to it from the
root. -/
theorem clusters_mirror_scopes (t : Tree) :
    (t.graph.clusters.map ClusterDecl.id).Perm
        (((List.range t.size).filter t.isScope).map clusterId) ∧
      (∀ i < t.size, t.isScope i = true → ∃ items inside,
        Item.Within items t.graph.items ∧ .cluster (t.clusterAt i) inside ∈ items) ∧
      (∀ items, Item.Within items t.graph.items →
        ∀ front decl inside behind, items = front ++ .cluster decl inside :: behind →
          ∃ i < t.size, t.isScope i = true ∧ decl = t.clusterAt i ∧
            (∃ before, front = before ++ [.node (t.declAt i)]) ∧ inside ≠ [] ∧
            (∀ own, own ∈ Item.nodesOf inside ↔
              ∃ j, (Below t.nodes j i ∧ j ≠ i) ∧ own = t.declAt j) ∧
            ∀ own, own ∈ Item.clustersOf inside ↔
              ∃ j, (Below t.nodes j i ∧ j ≠ i) ∧ t.isScope j = true ∧ own = t.clusterAt j) ∧
      ∀ k < t.size, ∃ steps, Descent t.nodes t.root steps k ∧ ∀ chain decl,
        Item.Encloses t.graph.items chain decl ∧ decl.id = nodeId k ↔
          chain = ((steps.map Prod.fst).filter t.isScope).map t.clusterAt ∧ decl = t.declAt k := by
  refine ⟨?_, fun i hi hscope => ?_, fun items hwithin front decl inside behind hsplit => ?_,
    fun k hk => ?_⟩
  · rw [Tree.clusters_graph_eq, List.map_map]
    exact (t.walk_newLast_perm.filter _).map _
  · have hvisited : i ∈ t.newLast.walk := t.walk_newLast_perm.mem_iff.2 (List.mem_range.2 hi)
    have hmem : t.clusterAt i ∈ t.graph.clusters := by
      rw [Tree.clusters_graph_eq]
      exact List.mem_map_of_mem (List.mem_filter.2 ⟨hvisited, hscope⟩)
    exact Item.exists_within_of_mem_clustersOf _ _ (fun _ => id) hmem
  · rw [Tree.items_graph] at hwithin
    obtain ⟨i, hi, hscope, rfl, rfl, hbefore⟩ :=
      (Tree.clustersPlaced_itemsFrom t.root_lt).within hwithin front decl inside behind hsplit
    refine ⟨i, hi, hscope, rfl, hbefore, Tree.itemsBelow_ne_nil hi hscope, fun own => ?_,
      fun own => ?_⟩
    · rw [Tree.nodesOf_itemsBelow hi, List.mem_map]
      exact exists_congr fun j => and_congr (Tree.mem_tail_newLast hi) eq_comm
    · rw [Tree.clustersOf_itemsBelow hi, List.mem_map]
      refine exists_congr fun j => ?_
      rw [List.mem_filter, Tree.mem_tail_newLast hi, and_assoc, @eq_comm _ own]
  · obtain ⟨steps, hsteps⟩ := t.wellFormed.exists_descent hk
    refine ⟨steps, hsteps, fun chain decl => ?_⟩
    rw [Tree.items_graph, Tree.encloses_itemsFrom_iff t.root_lt]
    constructor
    · rintro ⟨⟨steps', k', hsteps', rfl, rfl⟩, hid⟩
      cases nodeId_injective hid
      cases t.wellFormed.descent_unique hsteps' hsteps
      exact ⟨rfl, rfl⟩
    · rintro ⟨rfl, rfl⟩
      exact ⟨⟨steps, k, hsteps, rfl, rfl⟩, rfl⟩

/-- What is in a `New` member of a group stands in its cluster, in that of the `Dim` around the
group. -/
theorem clusters_mirror_scopes_of_nested :
    ∃ t, Tree.ofNodes? [.bits 1, .wrap .new 0 {}, .bits 2, .collect .group 1 [2],
        .wrap .dim 3 {}] 4 = .ok t ∧
      (t.graph.clusters.map ClusterDecl.id).Perm [clusterId 1, clusterId 4] ∧
      ∀ chain decl, Item.Encloses t.graph.items chain decl ∧ decl.id = nodeId 0 ↔
        chain = [t.clusterAt 4, t.clusterAt 1] ∧ decl = t.declAt 0 := by
  obtain ⟨t, ht, hsize, hsteps, hscopes, haround⟩ : ∃ t,
      Tree.ofNodes? [.bits 1, .wrap .new 0 {}, .bits 2, .collect .group 1 [2],
          .wrap .dim 3 {}] 4 = .ok t ∧ t.size = 5 ∧
        Descent t.nodes t.root [(4, 0), (3, 0), (1, 0)] 0 ∧
          (List.range t.size).filter t.isScope = [1, 4] ∧
            [4, 3, 1].filter t.isScope = [4, 1] :=
    ⟨_, rfl, rfl, .down rfl (.down rfl (.down rfl (.here (by decide)))), rfl, rfl⟩
  obtain ⟨hclusters, -, -, hchains⟩ := clusters_mirror_scopes t
  rw [hscopes] at hclusters
  obtain ⟨steps, hway, hchain⟩ := hchains 0 (by omega)
  cases t.wellFormed.descent_unique hway hsteps
  refine ⟨t, ht, hclusters, fun chain decl => ?_⟩
  rw [hchain, List.map_cons, List.map_cons, List.map_singleton, haround]
  rfl

end River

end StreamTypes
