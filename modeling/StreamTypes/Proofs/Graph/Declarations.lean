import StreamTypes.Proofs.Graph.OfTree
import StreamTypes.Proofs.River.Traversal

/-!
# Declarations below a node

The declarations for a node and for all that is below it are the declaration of the node and,
behind it or in a cluster behind it, the declarations for its children. The children are taken
in order, except that the `New` members of a collection follow all others. A tree in which
they stand in this order from the start has the same nodes, so what is known of traversals
holds of the order of declarations as well.

## Main definitions

- `River.movedLast` — a list with some of its members behind all others
- `River.Node.newLast`, `River.Tree.newLast` — the same form or tree with its `New` members
  behind all others
- `clustered` — what is declared below a node, in a cluster if the node opens one
- `River.Tree.declAt`, `River.Tree.clusterAt` — the declarations that belong to an index
- `River.Tree.itemsFrom` — the declarations for a node and for all that is below it

## Main statements

- `River.WellFormed.of_children_perm` — members may be listed in another order
- `River.Tree.itemsFrom_eq` — the declarations for a node from those for its children
- `River.Tree.eq_flatMap_newLast` — what is listed with the declarations follows a traversal
-/

namespace StreamTypes

open River (Kind Node Tree WellFormed)

/-! ### Members in another order -/

namespace River

section
variable {ι : Type}

/-- The members of a list with some of them moved behind all others. -/
def movedLast (moved : ι → Bool) (members : List ι) : List ι :=
  members.filter (fun c => !moved c) ++ members.filter moved

theorem movedLast_perm (moved : ι → Bool) (members : List ι) :
    (movedLast moved members).Perm members := by
  simpa [movedLast] using List.filter_append_perm (fun c => !moved c) members

/-- Nothing is moved if no moved member stands in front of another one. -/
theorem movedLast_eq_self_iff {moved : ι → Bool} {members : List ι} :
    movedLast moved members = members ↔
      members.Pairwise fun c d => moved c = true → moved d = true := by
  induction members with
  | nil => exact iff_of_true rfl .nil
  | cons c members ih =>
    rw [List.pairwise_cons]
    cases hc : moved c with
    | false =>
      have hcons : movedLast moved (c :: members) = c :: movedLast moved members := by
        simp [movedLast, hc]
      rw [hcons, List.cons_inj_right, ih]
      simp
    | true =>
      simp only [true_implies]
      constructor
      · intro h
        have hnone : members.filter (fun d => !moved d) = [] := by
          by_contra hsome
          obtain ⟨d, others, hothers⟩ := List.exists_cons_of_ne_nil hsome
          have hd : d ∈ members.filter fun d => !moved d := hothers ▸ List.mem_cons_self ..
          -- a member that is not moved would come first
          simp only [movedLast, List.filter_cons, hc, Bool.not_true, Bool.false_eq_true,
            if_false, hothers, List.cons_append, List.cons.injEq] at h
          rw [List.mem_filter, h.1, hc] at hd
          exact absurd hd.2 (by decide)
        have hall : ∀ d ∈ members, moved d = true := by
          intro d hd
          have := List.filter_eq_nil_iff.1 hnone d hd
          simpa using this
        exact ⟨hall, List.pairwise_of_forall_mem_list fun _ _ d hd _ => hall d hd⟩
      · rintro ⟨hall, -⟩
        have hnone : (c :: members).filter (fun d => !moved d) = [] := by
          simpa [List.filter_eq_nil_iff, hc] using hall
        have hsame : (c :: members).filter moved = c :: members := by
          simpa [List.filter_eq_self, hc] using hall
        rw [movedLast, hnone, hsame, List.nil_append]

theorem movedLast_map {κ : Type} (moved : κ → Bool) (f : ι → κ) (members : List ι) :
    movedLast moved (members.map f) = (movedLast (fun c => moved (f c)) members).map f := by
  rw [movedLast, movedLast, List.map_append, List.filter_map, List.filter_map]
  rfl

theorem movedLast_congr {moved moved' : ι → Bool} {members : List ι}
    (h : ∀ c ∈ members, moved c = moved' c) :
    movedLast moved members = movedLast moved' members := by
  rw [movedLast, movedLast, List.filter_congr h,
    List.filter_congr fun c hc => congrArg not (h c hc)]

/-- The same form with some members of a collection moved behind all others. -/
def Node.newLast (moved : ι → Bool) : Node ι → Node ι
  | .bits width => .bits width
  | .wrap wrapper child params => .wrap wrapper child params
  | .collect collection first rest =>
    match movedLast moved (first :: rest) with
    | [] => .collect collection first rest
    | first :: rest => .collect collection first rest

theorem movedLast_singleton (moved : ι → Bool) (c : ι) : movedLast moved [c] = [c] :=
  movedLast_eq_self_iff.2 (List.pairwise_singleton _ _)

theorem Node.children_newLast (moved : ι → Bool) (node : Node ι) :
    (node.newLast moved).children = movedLast moved node.children := by
  cases node with
  | bits => rfl
  | wrap wrapper child params => exact (movedLast_singleton moved child).symm
  | collect collection first rest =>
    rw [newLast]
    split
    case h_1 hnil =>
      have hlength := (movedLast_perm moved (first :: rest)).length_eq
      rw [hnil] at hlength
      cases hlength
    case h_2 h => exact h.symm

theorem Node.children_newLast_perm (moved : ι → Bool) (node : Node ι) :
    (node.newLast moved).children.Perm node.children :=
  children_newLast moved node ▸ movedLast_perm moved node.children

end

variable {nodes nodes' : List (Node Nat)} {root : Nat}

theorem referencesFrom_perm (h : List.Forall₂ (fun m n => m.children.Perm n.children) nodes' nodes)
    (start : Nat) : (referencesFrom start nodes').Perm (referencesFrom start nodes) := by
  induction h generalizing start with
  | nil => exact .nil
  | cons hnode _ ih => exact (hnode.map _).append (ih (start + 1))

/-- A tree stays a tree when members are listed in another order. -/
theorem WellFormed.of_children_perm (h : WellFormed nodes root)
    (hperm : List.Forall₂ (fun m n => m.children.Perm n.children) nodes' nodes) :
    WellFormed nodes' root := by
  have hrefs : (references nodes').Perm (references nodes) := referencesFrom_perm hperm 0
  refine ⟨h.root_last.trans hperm.length_eq.symm, fun r hr => ?_, fun c hc => ?_⟩
  · exact h.earlier r (hrefs.mem_iff.1 hr)
  · rw [(hrefs.map Prod.snd).count_eq c]
    exact h.once c hc

namespace Tree

variable (t : Tree)

/-- The node at an index, if there is one. -/
def nodeAt (i : Nat) : Node Nat :=
  t.nodes[i]?.getD (.bits 0)

/-- Whether the node at an index is a `New` form. -/
def isNew (i : Nat) : Bool :=
  (t.nodeAt i).kind == .wrap .new

/-- The same tree with the `New` members of each collection behind all others. -/
def newLast : Tree where
  nodes := t.nodes.map (Node.newLast t.isNew)
  root := t.root
  wellFormed := by
    refine t.wellFormed.of_children_perm (List.forall₂_map_left_iff.2 ?_)
    exact List.forall₂_same.2 fun node _ => Node.children_newLast_perm t.isNew node

variable {t}

theorem nodeAt_eq {i : Nat} {node : Node Nat} (h : t.nodes[i]? = some node) :
    t.nodeAt i = node := by
  rw [nodeAt, h, Option.getD_some]

theorem getElem?_eq_nodeAt {i : Nat} (hi : i < t.nodes.length) :
    t.nodes[i]? = some (t.nodeAt i) := by
  rw [nodeAt, List.getElem?_eq_getElem hi, Option.getD_some]

theorem getElem?_newLast {i : Nat} {node : Node Nat} (h : t.nodes[i]? = some node) :
    t.newLast.nodes[i]? = some (node.newLast t.isNew) := by
  rw [newLast, List.getElem?_map, h]
  rfl

/-- What is a child stays one. -/
theorem isChild_newLast (t : Tree) : IsChild t.newLast.nodes = IsChild t.nodes := by
  ext c i
  constructor
  · rintro ⟨moved, hmoved, hc⟩
    rw [newLast, List.getElem?_map, Option.map_eq_some_iff] at hmoved
    obtain ⟨node, hnode, rfl⟩ := hmoved
    exact ⟨node, hnode, (Node.children_newLast_perm _ node).mem_iff.1 hc⟩
  · rintro ⟨node, hnode, hc⟩
    exact ⟨_, getElem?_newLast hnode, (Node.children_newLast_perm _ node).mem_iff.2 hc⟩

theorem below_newLast (t : Tree) : Below t.newLast.nodes = Below t.nodes := by
  rw [Below, Below, isChild_newLast]

theorem length_newLast (t : Tree) : t.newLast.nodes.length = t.nodes.length :=
  List.length_map _

end Tree

end River

/-! ### The declarations of a form -/

section
variable {ι κ : Type}

/-- The declaration of the cluster below the node at an index. -/
def clusterOf (index : Nat) (node : Node ι) : ClusterDecl :=
  ⟨clusterId index, node.kind.keyword, node.kind⟩

/-- The declarations for what is below a node, as they stand behind its own. -/
def clustered (index : Nat) (node : Node ι) (items : List Item) : List Item :=
  if opensCluster node.kind then [.cluster (clusterOf index node) items] else items

@[simp] theorem clustered_map (f : ι → κ) (index : Nat) (node : Node ι) (items : List Item) :
    clustered index (node.map f) items = clustered index node items := by
  simp [clustered, clusterOf]

/-- A form that opens a cluster has one child, so there is nothing to move in it. -/
theorem movedLast_children_of_opensCluster (moved : ι → Bool) {node : Node ι}
    (h : opensCluster node.kind = true) : River.movedLast moved node.children = node.children := by
  cases node with
  | bits | collect => cases h
  | wrap wrapper child params => exact River.movedLast_singleton moved child

end

/-- The declarations for a form and all that is below it, if there are any. -/
def Emission.declared (e : Emission) : List Item :=
  match e.items with
  | .ok items => items
  | .error _ => []

theorem eq_flatMap_declared {members : List Emission} {items : List Item}
    (h : emitAll members = .ok items) : items = members.flatMap Emission.declared := by
  induction members generalizing items with
  | nil =>
    cases h
    rfl
  | cons member members ih =>
    obtain ⟨own, rest, hown, hrest, rfl⟩ := emitAll_cons_ok h
    rw [List.flatMap_cons, ← ih hrest, Emission.declared, hown]

/-- Whether a form is moved behind its siblings. -/
def Emission.isNew (e : Emission) : Bool :=
  e.kind == .wrap .new

/-- The declarations for a form are its own, and then those for its children. -/
theorem declared_emit (index : Nat) {node : Node Emission}
    (h : ∀ m ∈ node.children, ∃ items, m.items = .ok items) :
    (emit Palette.full index node).declared = .node (declOf index node) ::
      clustered index node
        ((River.movedLast Emission.isNew node.children).flatMap Emission.declared) := by
  obtain ⟨items, hitems⟩ : ∃ items, (emit Palette.full index node).items = .ok items :=
    emit_full_ok h
  obtain ⟨color, below, hcolor, hcases⟩ := emit_ok hitems
  have hdecl : declOf index node = ⟨nodeId index, nodeLabel node, node.kind, color⟩ := by
    rw [declOf, hcolor, Option.getD_some]
  rw [Emission.declared, hitems, hdecl, clustered]
  rcases hcases with ⟨hopens, hbelow, rfl⟩ | ⟨hopens, hbelow, rfl⟩
  · rw [if_pos hopens, movedLast_children_of_opensCluster _ hopens, ← eq_flatMap_declared hbelow]
    rfl
  · rw [hopens, if_neg Bool.false_ne_true]
    exact congrArg _ (eq_flatMap_declared hbelow)

namespace River.Tree

variable (t : Tree)

/-- The declaration of the node at an index. -/
def declAt (i : Nat) : NodeDecl :=
  declOf i (t.nodeAt i)

/-- The declaration of the cluster below the node at an index, if it opens one. -/
def clusterAt (i : Nat) : ClusterDecl :=
  clusterOf i (t.nodeAt i)

/-- The declarations for the node at an index and for all that is below it. -/
def itemsFrom (i : Nat) : List Item :=
  (t.resultAt (emit Palette.full) i).declared

theorem items_graph : t.graph.items = t.itemsFrom t.root := by
  have hitems : (t.resultAt (emit Palette.full) t.root).items = .ok t.graph.items := t.graph_eq.1
  rw [itemsFrom, Emission.declared, hitems]

variable {t}

theorem isNew_resultAt {palette : Palette} {i : Nat} (hi : i < t.nodes.length) :
    (t.resultAt (emit palette) i).isNew = t.isNew i := by
  rw [t.resultAt_eq _ (getElem?_eq_nodeAt hi)]
  exact congrArg (· == Kind.wrap .new) (Node.kind_map _ _)

/-- The declarations for a node are its own, and then those for its children in order, the
`New` members of a collection behind all others. -/
theorem itemsFrom_eq {i : Nat} {node : Node Nat} (h : t.nodes[i]? = some node) :
    t.itemsFrom i = .node (t.declAt i) ::
      clustered i node ((node.newLast t.isNew).children.flatMap t.itemsFrom) := by
  have hok : ∀ m ∈ (node.map (t.resultAt (emit Palette.full))).children,
      ∃ items, m.items = .ok items := by
    intro m hm
    rw [Node.children_map] at hm
    obtain ⟨c, -, rfl⟩ := List.mem_map.1 hm
    exact t.resultAt_emit_ok c
  -- what is declared for a child is of the kind of the child
  have hmoved : ∀ c ∈ node.children,
      (t.resultAt (emit Palette.full) c).isNew = t.isNew c := fun c hc =>
    isNew_resultAt (child_lt_length h hc)
  rw [itemsFrom, t.resultAt_eq _ h, declared_emit i hok, declOf_map, clustered_map,
    Node.children_map, movedLast_map, movedLast_congr hmoved, List.flatMap_map, declAt,
    nodeAt_eq h, Node.children_newLast]
  rfl

/-- What goes on with the children of a node in the order of their declaration lists the entries
of all nodes below it in this order. -/
theorem eq_flatMap_newLast {α : Type} (order : Nat → List α) {entries : Nat → List α}
    (h : ∀ i node, t.nodes[i]? = some node →
      order i = entries i ++ (node.newLast t.isNew).children.flatMap order)
    {i : Nat} (hi : i < t.nodes.length) :
    order i = (t.newLast.preorderFrom i).flatMap entries := by
  refine eq_flatMap_preorderFrom (fun j moved hmoved => ?_) (by rwa [length_newLast])
  rw [newLast, List.getElem?_map, Option.map_eq_some_iff] at hmoved
  obtain ⟨node, hnode, rfl⟩ := hmoved
  exact h j node hnode

end River.Tree

end StreamTypes
