import StreamTypes.River.Node

/-!
# Shapes of node lists

A list of nodes is a tree when every reference points to an earlier node, every
node but the last is referred to exactly once, and the root is the last node. The
check below goes through the references in order and reports the first one that
is wrong; it accepts only trees.

## Main definitions

- `references` — all references, each with the index of the node it stands in
- `WellFormed` — the lists of nodes that are trees
- `ShapeError` — what may be wrong with a list of nodes
- `checkShape` — the check

## Main statements

- `wellFormed_of_checkShape` — a list that passes the check is a tree
-/

namespace StreamTypes.River

variable {ι κ : Type}

/-- The references of the nodes of a list, the first of which has index `start`. -/
def referencesFrom (start : Nat) : List (Node ι) → List (Nat × ι)
  | [] => []
  | node :: nodes => node.children.map (start, ·) ++ referencesFrom (start + 1) nodes

/-- All references of a list of nodes, each with the index of its node. -/
def references (nodes : List (Node ι)) : List (Nat × ι) :=
  referencesFrom 0 nodes

/-- The lists of nodes that are trees. -/
structure WellFormed (nodes : List (Node Nat)) (root : Nat) : Prop where
  /-- The root is the last node. -/
  root_last : root + 1 = nodes.length
  /-- Children come before their parents. -/
  earlier : ∀ r ∈ references nodes, r.2 < r.1
  /-- Every node but the root has one parent. -/
  once : ∀ c < root, ((references nodes).map Prod.snd).count c = 1

/-- What may be wrong with a list of nodes. -/
inductive ShapeError where
  /-- There is no node at the index of the root. -/
  | rootOutside (root : Int)
  /-- A reference does not point to an earlier node. -/
  | notEarlier (node : Nat) (child : Int)
  /-- A node is referred to a second time. -/
  | shared (child first second : Nat)
  /-- A node other than the root is not referred to. -/
  | unreachable (node : Nat)
  /-- The root is referred to. -/
  | rootHasParent (root : Nat)
  deriving DecidableEq, Repr

/-- A shape error in words. -/
def ShapeError.message : ShapeError → String
  | .rootOutside root => "root index " ++ toString root ++ " is outside the arena"
  | .notEarlier node child =>
    "node " ++ Nat.repr node ++ " references child " ++ toString child ++
      " which is not an earlier node"
  | .shared child first second =>
    "node " ++ Nat.repr child ++ " is shared by nodes " ++ Nat.repr first ++ " and " ++
      Nat.repr second
  | .unreachable node => "node " ++ Nat.repr node ++ " is not reachable from the root"
  | .rootHasParent root => "root node " ++ Nat.repr root ++ " has a parent"

/-- The parent of a node, if one has been noted. -/
def parentOf (parents : Array (Option Nat)) (child : Nat) : Option Nat :=
  parents[child]?.join

/-- Notes the parent of a child. -/
def noteParent (parents : Array (Option Nat)) (node : Nat) (child : Int) :
    Except ShapeError (Array (Option Nat)) :=
  if 0 ≤ child ∧ child < node then
    match parentOf parents child.toNat with
    | some first => .error (.shared child.toNat first node)
    | none => .ok (parents.setIfInBounds child.toNat (some node))
  else .error (.notEarlier node child)

/-- Notes the parents of the children in a list of references, in order. -/
def noteParents : List (Nat × Int) → Array (Option Nat) → Except ShapeError (Array (Option Nat))
  | [], parents => .ok parents
  | (node, child) :: refs, parents =>
    match noteParent parents node child with
    | .error e => .error e
    | .ok parents => noteParents refs parents

/-- The first node other than the root that has no parent. -/
def orphan? (parents : Array (Option Nat)) (root : Nat) : Option Nat :=
  (List.range parents.size).find? fun i => i != root && (parentOf parents i).isNone

/-- Whether a list of nodes is a tree, or else what is wrong with it. -/
def checkShape (nodes : List (Node Int)) (root : Int) : Except ShapeError Unit :=
  if 0 ≤ root ∧ root < nodes.length then
    match noteParents (references nodes) (Array.replicate nodes.length none) with
    | .error e => .error e
    | .ok parents =>
      match orphan? parents root.toNat with
      | some node => .error (.unreachable node)
      | none =>
        if (parentOf parents root.toNat).isSome then .error (.rootHasParent root.toNat)
        else .ok ()
  else .error (.rootOutside root)

theorem referencesFrom_map (f : ι → κ) (start : Nat) (nodes : List (Node ι)) :
    referencesFrom start (nodes.map (Node.map f)) =
      (referencesFrom start nodes).map fun r => (r.1, f r.2) := by
  induction nodes generalizing start with
  | nil => rfl
  | cons node nodes ih => simp [referencesFrom, ih, Function.comp_def]

theorem lt_of_mem_referencesFrom {start : Nat} {nodes : List (Node ι)} {r : Nat × ι}
    (h : r ∈ referencesFrom start nodes) : r.1 < start + nodes.length := by
  induction nodes generalizing start with
  | nil => simp [referencesFrom] at h
  | cons node nodes ih =>
    rw [referencesFrom, List.mem_append] at h
    rcases h with h | h
    · obtain ⟨c, -, rfl⟩ := List.mem_map.1 h
      simp
    · have := ih h
      simp only [List.length_cons]
      omega

theorem parentOf_set (parents : Array (Option Nat)) (node child c : Nat)
    (h : c < parents.size) :
    parentOf (parents.setIfInBounds child (some node)) c =
      if child = c then some node else parentOf parents c := by
  unfold parentOf
  rw [Array.getElem?_setIfInBounds]
  split
  · subst child
    simp [h]
  · rfl

/-- Noting one parent counts the child once and changes nothing else. -/
theorem noteParent_ok {parents parents' : Array (Option Nat)} {node : Nat} {child : Int}
    (h : noteParent parents node child = .ok parents') :
    (0 ≤ child ∧ child < node) ∧ parents'.size = parents.size ∧
      ∀ c : Nat, c < parents.size →
        (if child = c then 1 else 0) + (if (parentOf parents c).isSome then 1 else 0) =
          if (parentOf parents' c).isSome then 1 else 0 := by
  unfold noteParent at h
  split at h
  case isFalse => simp at h
  case isTrue hc =>
    split at h
    case h_1 => simp at h
    case h_2 hnone =>
      simp only [Except.ok.injEq] at h
      subst h
      refine ⟨hc, by simp, fun c hlt => ?_⟩
      by_cases heq : child = c
      · subst heq
        simp only [Int.toNat_natCast] at hnone ⊢
        simp [hnone, parentOf_set, hlt]
      · have hne : child.toNat ≠ c := by omega
        simp [heq, parentOf_set, hlt, hne]

/-- Noting the parents of a list counts every child once. -/
theorem noteParents_ok {refs : List (Nat × Int)} {parents parents' : Array (Option Nat)}
    (h : noteParents refs parents = .ok parents') :
    (∀ r ∈ refs, 0 ≤ r.2 ∧ r.2 < r.1) ∧ parents'.size = parents.size ∧
      ∀ c : Nat, c < parents.size →
        (refs.map Prod.snd).count (c : Int) + (if (parentOf parents c).isSome then 1 else 0) =
          if (parentOf parents' c).isSome then 1 else 0 := by
  induction refs generalizing parents with
  | nil =>
    simp only [noteParents, Except.ok.injEq] at h
    subst h
    simp
  | cons r refs ih =>
    obtain ⟨node, child⟩ := r
    rw [noteParents] at h
    split at h
    case h_1 => simp at h
    case h_2 parents₁ h₁ =>
      obtain ⟨hchild, hsize₁, hcount₁⟩ := noteParent_ok h₁
      obtain ⟨hrefs, hsize, hcount⟩ := ih h
      refine ⟨?_, by omega, fun c hlt => ?_⟩
      · intro r hr
        rcases List.mem_cons.1 hr with rfl | hr
        · exact hchild
        · exact hrefs r hr
      · have e₁ := hcount₁ c hlt
        have e₂ := hcount c (by omega)
        simp only [List.map_cons, List.count_cons, beq_iff_eq]
        omega

/-- Counting natural children is counting the integers that stand for them. -/
theorem count_toNat {refs : List (Nat × Int)} (h : ∀ r ∈ refs, 0 ≤ r.2) (c : Nat) :
    (refs.map fun r => r.2.toNat).count c = (refs.map Prod.snd).count (c : Int) := by
  induction refs with
  | nil => rfl
  | cons r refs ih =>
    have hr : 0 ≤ r.2 := h r (by simp)
    have heq : (r.2.toNat = c) ↔ (r.2 = (c : Int)) := by omega
    simp only [List.map_cons, List.count_cons, beq_iff_eq, heq]
    rw [ih fun r hr => h r (by simp [hr])]

/-- A list of nodes that passes the check is a tree. -/
theorem wellFormed_of_checkShape {nodes : List (Node Int)} {root : Int}
    (h : checkShape nodes root = .ok ()) :
    WellFormed (nodes.map (Node.map Int.toNat)) root.toNat := by
  unfold checkShape at h
  split at h
  case isFalse => simp at h
  case isTrue hroot =>
    split at h
    case h_1 => simp at h
    case h_2 parents hparents =>
      split at h
      case h_1 => simp at h
      case h_2 horphan =>
        split at h
        case isTrue => simp at h
        case isFalse hnoparent =>
          obtain ⟨hrefs, hsize, hcount⟩ := noteParents_ok hparents
          simp only [Array.size_replicate] at hsize hcount
          -- At the start no node has a parent, so at the end a parent means one reference.
          have hempty : ∀ c : Nat, parentOf (Array.replicate nodes.length none) c = none := by
            intro c
            simp [parentOf, Array.getElem?_replicate]
            split <;> simp
          -- There is no orphan, so each node but the root is referred to once.
          have hone : ∀ c : Nat, c < nodes.length → c ≠ root.toNat →
              ((references nodes).map Prod.snd).count (c : Int) = 1 := by
            intro c hlt hne
            have hc := hcount c hlt
            have hsome : (parentOf parents c).isSome = true := by
              have := List.find?_eq_none.1 horphan c (by simp; omega)
              simp only [bne_iff_ne, ne_eq, hne, not_false_eq_true, Bool.and_eq_true, true_and,
                Option.isNone_iff_eq_none] at this
              exact Option.isSome_iff_ne_none.2 this
            simpa [hempty, hsome] using hc
          -- A reference to the last node would have to stand behind it.
          have hlast : root.toNat + 1 = nodes.length := by
            apply Classical.byContradiction
            intro hne
            have hmem := hone (nodes.length - 1) (by omega) (by omega)
            have hpos : 0 < ((references nodes).map Prod.snd).count
                ((nodes.length - 1 : Nat) : Int) := by omega
            obtain ⟨r, hr, hval⟩ := List.mem_map.1 (List.count_pos_iff.1 hpos)
            have hlt := lt_of_mem_referencesFrom hr
            have hless := (hrefs r hr).2
            simp only [Nat.zero_add] at hlt
            omega
          have hmap : references (nodes.map (Node.map Int.toNat)) =
              (references nodes).map fun r => (r.1, r.2.toNat) := referencesFrom_map _ _ _
          refine ⟨by simpa using hlast, ?_, ?_⟩
          · intro r hr
            rw [hmap] at hr
            obtain ⟨r', hr', rfl⟩ := List.mem_map.1 hr
            have := hrefs r' hr'
            simp only
            omega
          · intro c hc
            rw [hmap, List.map_map]
            have := count_toNat (fun r hr => (hrefs r hr).1) c
            simp only [Function.comp_def]
            rw [this]
            exact hone c (by omega) (by omega)

end StreamTypes.River
