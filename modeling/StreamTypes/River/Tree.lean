import StreamTypes.River.Shape
import StreamTypes.River.Term

/-!
# Trees of nodes

A River type as a list of nodes in which children come before their parents. The
index of a node is its identity: equal parts of a type have different indices.

## Main definitions

- `Tree` — a list of nodes that is a tree
- `Tree.ofNodes?` — a tree from unchecked nodes
- `Tree.fold` — a value computed from the leaves to the root
- `Tree.walk` — the indices from the root downwards
- `Tree.term`, `Tree.text`, `Tree.toJson` — what a tree stands for, and how it is
  written
-/

namespace StreamTypes.River

/-- A list of nodes that is a tree. -/
structure Tree where
  /-- The nodes, children before their parents. -/
  nodes : List (Node Nat)
  root : Nat
  /-- Every node but the root, which comes last, has one parent. -/
  wellFormed : WellFormed nodes root

instance : DecidableEq Tree := fun t u =>
  if h : t.nodes = u.nodes ∧ t.root = u.root then
    isTrue (by cases t; cases u; simp only at h; simp [h.1, h.2])
  else isFalse (by rintro rfl; exact h ⟨rfl, rfl⟩)

namespace Tree

/-- A tree from unchecked nodes and the index of its root. -/
def ofNodes? (nodes : List (Node Int)) (root : Int) : Except ShapeError Tree :=
  match h : checkShape nodes root with
  | .ok () => .ok ⟨nodes.map (Node.map Int.toNat), root.toNat, wellFormed_of_checkShape h⟩
  | .error e => .error e

/-- The number of nodes. -/
def size (t : Tree) : Nat :=
  t.nodes.length

/-- The node at an index. A negative index counts from the end. -/
def node? (t : Tree) (index : Int) : Option (Node Nat) :=
  if 0 ≤ index then t.nodes[index.toNat]?
  else if 0 ≤ t.size + index then t.nodes[(t.size + index).toNat]?
  else none

/-- The results for the nodes of a list, computed from the first to the last: a
node finds the results for its children among those that are already `done`. -/
def foldFrom {β : Type} [Inhabited β] (step : Nat → Node β → β) :
    List (Node Nat) → Array β → Array β
  | [], done => done
  | node :: nodes, done =>
    foldFrom step nodes (done.push (step done.size (node.map fun child => done.getD child default)))

/-- The result for the root, where `step` gives the result for a node from its
index and the results for its children. -/
def fold {β : Type} [Inhabited β] (step : Nat → Node β → β) (t : Tree) : β :=
  (foldFrom step t.nodes #[]).getD t.root default

/-- A property that every step keeps holds of all results. -/
theorem foldFrom_induction {β : Type} [Inhabited β] {step : Nat → Node β → β} {P : β → Prop}
    (hstep : ∀ index node, (∀ b ∈ node.children, P b) → P (step index node))
    (nodes : List (Node Nat)) (done : Array β) (hdone : ∀ i, P (done.getD i default)) :
    ∀ i, P ((foldFrom step nodes done).getD i default) := by
  induction nodes generalizing done with
  | nil => exact hdone
  | cons node nodes ih =>
    refine ih _ fun i => ?_
    have hnew : P (step done.size (node.map fun child => done.getD child default)) := by
      refine hstep _ _ fun b hb => ?_
      rw [Node.children_map] at hb
      obtain ⟨child, -, rfl⟩ := List.mem_map.1 hb
      exact hdone child
    rw [Array.getD_eq_getD_getElem?, Array.getElem?_push]
    split
    · exact hnew
    · rw [← Array.getD_eq_getD_getElem?]
      exact hdone i

/-- A property of the default that every step keeps holds of the result. -/
theorem fold_induction {β : Type} [Inhabited β] {step : Nat → Node β → β} {P : β → Prop}
    (hdefault : P default)
    (hstep : ∀ index node, (∀ b ∈ node.children, P b) → P (step index node)) (t : Tree) :
    P (t.fold step) :=
  foldFrom_induction hstep t.nodes #[] (fun i => by simpa using hdefault) t.root

/-- The indices reached from a stack of indices, each followed by those below it;
`fuel` bounds their number. -/
def walkFrom (nodes : Array (Node Nat)) : Nat → List Nat → List Nat
  | 0, _ => []
  | _ + 1, [] => []
  | fuel + 1, index :: stack =>
    let children := (nodes[index]?.map Node.children).getD []
    index :: walkFrom nodes fuel (children ++ stack)

/-- The indices of the nodes from the root downwards, each followed by those below
it, children in order. -/
def walk (t : Tree) : List Nat :=
  walkFrom t.nodes.toArray t.size [t.root]

/-- The number of nodes on the longest path from the root to a leaf. -/
def depth (t : Tree) : Nat :=
  t.fold fun _ node => 1 + node.children.foldl max 0

/-- The type that the tree stands for. -/
def term (t : Tree) : Term :=
  t.fold fun _ => Term.ofNode

/-- The canonical way to write the type. -/
def text (t : Tree) : String :=
  t.term.text

/-- The tree as a JSON object. -/
def toJson (t : Tree) : Json :=
  .obj [("nodes", .arr (t.nodes.map (Node.toJson Json.nat))), ("root", .nat t.root)]

end Tree

end StreamTypes.River
