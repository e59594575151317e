import Mathlib.Data.List.Nodup
import Mathlib.Logic.ExistsUnique
import StreamTypes.Proofs.River.Blocks

/-!
# Places of references

A reference stands at a place: the index of a node, and a position among the children of
this node. The list of all references is read place after place, so what stands before a
reference in this list are the references at the places before its own.

## Main definitions

- `childAt?` — the reference at a place
- `Before` — the order in which places are read
- `placed` — all references with their places

## Main statements

- `mem_placed`, `pairwise_placed` — the references are listed by their places
- `count_references_eq_one_iff` — a node is referred to once if there is one place for it
-/

namespace StreamTypes.River

variable {ι : Type}

/-- The reference at a position among the children of the node at an index. -/
def childAt? (nodes : List (Node ι)) (index position : Nat) : Option ι :=
  nodes[index]?.bind fun node => node.children[position]?

/-- The order in which places are read: node by node, and child by child. -/
def Before (a b : Nat × Nat) : Prop :=
  a.1 < b.1 ∨ a.1 = b.1 ∧ a.2 < b.2

/-- The references of the nodes of a list, the first of which has index `start`, with
their places. -/
def placedFrom (start : Nat) : List (Node ι) → List ((Nat × Nat) × ι)
  | [] => []
  | node :: nodes =>
    node.children.mapIdx (fun position c => ((start, position), c)) ++ placedFrom (start + 1) nodes

/-- All references of a list of nodes with their places. -/
def placed (nodes : List (Node ι)) : List ((Nat × Nat) × ι) :=
  placedFrom 0 nodes

theorem childAt?_eq_some_iff {nodes : List (Node ι)} {i p : Nat} {c : ι} :
    childAt? nodes i p = some c ↔
      ∃ node, nodes[i]? = some node ∧ node.children[p]? = some c :=
  Option.bind_eq_some_iff

theorem lt_length_of_childAt? {nodes : List (Node ι)} {i p : Nat} {c : ι}
    (h : childAt? nodes i p = some c) : i < nodes.length := by
  obtain ⟨node, hnode, -⟩ := childAt?_eq_some_iff.1 h
  exact (List.getElem?_eq_some_iff.1 hnode).1

theorem childAt?_zero (node : Node ι) (nodes : List (Node ι)) (p : Nat) :
    childAt? (node :: nodes) 0 p = node.children[p]? :=
  rfl

theorem childAt?_succ (node : Node ι) (nodes : List (Node ι)) (i p : Nat) :
    childAt? (node :: nodes) (i + 1) p = childAt? nodes i p :=
  rfl

theorem isChild_iff {nodes : List (Node Nat)} {c i : Nat} :
    IsChild nodes c i ↔ ∃ p, childAt? nodes i p = some c := by
  constructor
  · rintro ⟨node, hnode, hc⟩
    obtain ⟨p, hp⟩ := List.mem_iff_getElem?.1 hc
    exact ⟨p, childAt?_eq_some_iff.2 ⟨node, hnode, hp⟩⟩
  · rintro ⟨p, hp⟩
    obtain ⟨node, hnode, hc⟩ := childAt?_eq_some_iff.1 hp
    exact ⟨node, hnode, List.mem_of_getElem? hc⟩

theorem WellFormed.lt_of_childAt? {nodes : List (Node Nat)} {root i p c : Nat}
    (h : WellFormed nodes root) (hc : childAt? nodes i p = some c) : c < i := by
  obtain ⟨node, hnode, hchild⟩ := childAt?_eq_some_iff.1 hc
  exact h.child_lt hnode (List.mem_of_getElem? hchild)

/-! ### The list of all references -/

theorem map_placedFrom (start : Nat) (nodes : List (Node ι)) :
    (placedFrom start nodes).map (fun r => (r.1.1, r.2)) = referencesFrom start nodes := by
  induction nodes generalizing start with
  | nil => rfl
  | cons node nodes ih =>
    have hown : (node.children.mapIdx fun p c => ((start, p), c)).map (fun r => (r.1.1, r.2)) =
        node.children.map (start, ·) :=
      List.ext_getElem (by simp) (by simp)
    rw [placedFrom, List.map_append, hown, ih, referencesFrom]

/-- The references with their places hidden are the references that are checked. -/
theorem map_placed (nodes : List (Node ι)) :
    (placed nodes).map (fun r => (r.1.1, r.2)) = references nodes :=
  map_placedFrom 0 nodes

theorem mem_placedFrom {nodes : List (Node ι)} {start i p : Nat} {c : ι} :
    ((i, p), c) ∈ placedFrom start nodes ↔
      start ≤ i ∧ childAt? nodes (i - start) p = some c := by
  induction nodes generalizing start with
  | nil => simp [placedFrom, childAt?]
  | cons node nodes ih =>
    have hown : ((i, p), c) ∈ node.children.mapIdx (fun p c => ((start, p), c)) ↔
        i = start ∧ node.children[p]? = some c := by
      rw [List.mem_mapIdx, List.getElem?_eq_some_iff]
      constructor
      · rintro ⟨q, hq, heq⟩
        cases heq
        exact ⟨rfl, hq, rfl⟩
      · rintro ⟨rfl, hp, rfl⟩
        exact ⟨p, hp, rfl⟩
    rw [placedFrom, List.mem_append, hown, ih]
    rcases Nat.lt_trichotomy i start with hlt | rfl | hgt
    · omega
    · rw [Nat.sub_self, childAt?_zero]
      simp
    · obtain ⟨d, rfl⟩ := Nat.exists_eq_add_of_lt hgt
      have hcons : start + d + 1 - start = d + 1 := by omega
      have htail : start + d + 1 - (start + 1) = d := by omega
      rw [hcons, htail, childAt?_succ]
      simp only [show start + d + 1 ≠ start by omega, show start + 1 ≤ start + d + 1 by omega,
        show start ≤ start + d + 1 by omega, false_and, true_and, false_or]

theorem mem_placed {nodes : List (Node ι)} {i p : Nat} {c : ι} :
    ((i, p), c) ∈ placed nodes ↔ childAt? nodes i p = some c := by
  rw [placed, mem_placedFrom, Nat.sub_zero]
  exact and_iff_right (Nat.zero_le i)

theorem pairwise_placedFrom (start : Nat) (nodes : List (Node ι)) :
    (placedFrom start nodes).Pairwise fun r s => Before r.1 s.1 := by
  induction nodes generalizing start with
  | nil => exact .nil
  | cons node nodes ih =>
    rw [placedFrom, List.pairwise_append]
    refine ⟨?_, ih (start + 1), ?_⟩
    · refine List.pairwise_iff_getElem.2 fun p q hp hq hpq => ?_
      rw [List.getElem_mapIdx, List.getElem_mapIdx]
      exact .inr ⟨rfl, hpq⟩
    · rintro r hr ⟨⟨i, p⟩, c⟩ hs
      obtain ⟨q, hq, rfl⟩ := List.mem_mapIdx.1 hr
      have hle := (mem_placedFrom.1 hs).1
      exact .inl hle

/-- The references are listed in the order of their places. -/
theorem pairwise_placed (nodes : List (Node ι)) :
    (placed nodes).Pairwise fun r s => Before r.1 s.1 :=
  pairwise_placedFrom 0 nodes

theorem nodup_placed (nodes : List (Node ι)) : (placed nodes).Nodup := by
  refine (pairwise_placed nodes).imp ?_
  rintro r s hbefore rfl
  rw [Before] at hbefore
  omega

/-- A node is referred to once if there is one place from which it is referred to. -/
theorem count_references_eq_one_iff [DecidableEq ι] (nodes : List (Node ι)) (c : ι) :
    ((references nodes).map Prod.snd).count c = 1 ↔
      ∃! place : Nat × Nat, childAt? nodes place.1 place.2 = some c := by
  have hcount : ((references nodes).map Prod.snd).count c =
      ((placed nodes).filter fun r => r.2 = c).length := by
    rw [← map_placed, List.map_map, List.count_eq_countP, List.countP_map,
      List.countP_eq_length_filter]
    rfl
  have hmem : ∀ r : (Nat × Nat) × ι, r ∈ (placed nodes).filter (fun r => r.2 = c) ↔
      childAt? nodes r.1.1 r.1.2 = some c ∧ r.2 = c := by
    rintro ⟨⟨i, p⟩, d⟩
    rw [List.mem_filter, mem_placed, decide_eq_true_iff]
    constructor
    · rintro ⟨hchild, rfl⟩
      exact ⟨hchild, rfl⟩
    · rintro ⟨hchild, rfl⟩
      exact ⟨hchild, rfl⟩
  rw [hcount, List.length_eq_one_iff]
  constructor
  · rintro ⟨r, hr⟩
    have hself := (hmem r).1 (hr ▸ List.mem_singleton_self r)
    refine ⟨r.1, hself.1, fun place hplace => ?_⟩
    have hother : (place, c) ∈ (placed nodes).filter (fun r => r.2 = c) :=
      (hmem (place, c)).2 ⟨hplace, rfl⟩
    rw [hr, List.mem_singleton] at hother
    exact congrArg Prod.fst hother
  · rintro ⟨place, hplace, hunique⟩
    refine ⟨(place, c), List.perm_singleton.1 ?_⟩
    refine (List.perm_ext_iff_of_nodup ((nodup_placed nodes).filter _)
      (List.nodup_singleton _)).2 fun r => ?_
    rw [hmem, List.mem_singleton]
    constructor
    · rintro ⟨hchild, rfl⟩
      rw [← hunique r.1 hchild]
    · rintro rfl
      exact ⟨hplace, rfl⟩

end StreamTypes.River
