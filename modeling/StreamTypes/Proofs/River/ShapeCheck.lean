import StreamTypes.River.Tree
import Mathlib.Data.List.Nodup

/-!
# The shape check accepts trees

A list of nodes that passes the shape check is a tree. Conversely the check accepts
every tree, whatever the order of its nodes.

## Main statements

- `checkShape_eq_ok` — a tree passes the check
- `Tree.ofNodes?_eq_ok` — the nodes of a tree give this tree
-/

namespace StreamTypes.River

/-- Parents can be noted as long as no child is met twice. -/
theorem noteParents_eq_ok {refs : List (Nat × Nat)} {parents : Array (Option Nat)}
    (hearlier : ∀ r ∈ refs, r.2 < r.1) (hnodup : (refs.map Prod.snd).Nodup)
    (hbound : ∀ r ∈ refs, r.2 < parents.size)
    (hfree : ∀ r ∈ refs, parentOf parents r.2 = none) :
    ∃ parents', noteParents (refs.map fun r => (r.1, (r.2 : Int))) parents = .ok parents' := by
  induction refs generalizing parents with
  | nil => exact ⟨parents, rfl⟩
  | cons r refs ih =>
    obtain ⟨node, child⟩ := r
    rw [List.map_cons, List.nodup_cons] at hnodup
    have hlt : child < node := hearlier (node, child) (by simp)
    have hnote : noteParent parents node child =
        .ok (parents.setIfInBounds child (some node)) := by
      have hnone : parentOf parents child = none := hfree (node, child) (by simp)
      rw [noteParent, if_pos (by omega), Int.toNat_natCast, hnone]
    rw [List.map_cons, noteParents, hnote]
    refine ih (fun r hr => hearlier r (by simp [hr])) hnodup.2 ?_ ?_
    · intro r hr
      rw [Array.size_setIfInBounds]
      exact hbound r (by simp [hr])
    · intro r hr
      have hne : child ≠ r.2 := by
        intro heq
        exact hnodup.1 (List.mem_map.2 ⟨r, hr, heq.symm⟩)
      rw [parentOf_set _ _ _ _ (hbound r (by simp [hr])), if_neg hne]
      exact hfree r (by simp [hr])

variable {nodes : List (Node Nat)} {root : Nat}

/-- The root has no parent. -/
theorem WellFormed.lt_root (h : WellFormed nodes root) {r : Nat × Nat}
    (hr : r ∈ references nodes) : r.2 < root := by
  have hlt := lt_of_mem_referencesFrom hr
  have := h.earlier r hr
  have := h.root_last
  omega

theorem WellFormed.nodup (h : WellFormed nodes root) :
    ((references nodes).map Prod.snd).Nodup := by
  rw [List.nodup_iff_count_le_one]
  intro c
  by_cases hc : c < root
  · exact Nat.le_of_eq (h.once c hc)
  · rw [List.count_eq_zero_of_not_mem]
    · exact Nat.zero_le _
    · intro hmem
      obtain ⟨r, hr, rfl⟩ := List.mem_map.1 hmem
      exact hc (h.lt_root hr)

/-- The noted parents tell which nodes are referred to. -/
theorem WellFormed.exists_parents (h : WellFormed nodes root) :
    ∃ parents : Array (Option Nat),
      noteParents (references (nodes.map (Node.map Int.ofNat)))
          (Array.replicate nodes.length none) = .ok parents ∧
        parents.size = nodes.length ∧
          ∀ c, c < nodes.length → ((parentOf parents c).isSome = true ↔ c ≠ root) := by
  have hlen := h.root_last
  have hempty : ∀ c : Nat, parentOf (Array.replicate nodes.length none) c = none := by
    intro c
    rw [parentOf, Array.getElem?_replicate]
    split <;> rfl
  have hbound : ∀ r ∈ references nodes,
      r.2 < (Array.replicate nodes.length (none : Option Nat)).size := by
    intro r hr
    have := h.lt_root hr
    rw [Array.size_replicate]
    omega
  obtain ⟨parents, hparents⟩ :=
    noteParents_eq_ok h.earlier h.nodup hbound fun r _ => hempty r.2
  obtain ⟨hnonneg, hsize, hcount⟩ := noteParents_ok hparents
  refine ⟨parents, ?_, by rw [hsize, Array.size_replicate], fun c hc => ?_⟩
  · rw [references, referencesFrom_map]
    exact hparents
  · have hone := hcount c (by rwa [Array.size_replicate])
    rw [hempty, ← count_toNat fun r hr => (hnonneg r hr).1, List.map_map] at hone
    change ((references nodes).map Prod.snd).count c + 0 = _ at hone
    constructor
    · rintro hsome rfl
      rw [if_pos hsome, List.count_eq_zero_of_not_mem] at hone
      · exact absurd hone (by decide)
      · intro hmem
        obtain ⟨r, hr, heq⟩ := List.mem_map.1 hmem
        have := h.lt_root hr
        omega
    · intro hne
      rw [h.once c (by omega)] at hone
      by_contra hsome
      rw [if_neg hsome] at hone
      exact absurd hone (by decide)

/-- A tree passes the check. -/
theorem checkShape_eq_ok (h : WellFormed nodes root) :
    checkShape (nodes.map (Node.map Int.ofNat)) root = .ok () := by
  have hlen := h.root_last
  obtain ⟨parents, hparents, hsize, hsome⟩ := h.exists_parents
  have horphan : orphan? parents root = none := by
    rw [orphan?, List.find?_eq_none]
    intro c hc
    rw [List.mem_range, hsize] at hc
    by_cases hroot : c = root
    · simp [hroot]
    · have := (hsome c hc).2 hroot
      simp [Option.isSome_iff_ne_none.1 this]
  have hnone : ¬ (parentOf parents root).isSome = true := fun h =>
    (hsome root (by omega)).1 h rfl
  rw [checkShape, List.length_map, if_pos (by omega), hparents]
  simp only [Int.toNat_natCast, horphan]
  rw [if_neg hnone]

/-- A tree is determined by its nodes. -/
theorem Tree.eq_of_nodes_eq {t u : Tree} (h : t.nodes = u.nodes) : t = u := by
  have hroot : t.root + 1 = u.root + 1 := by
    rw [t.wellFormed.root_last, u.wellFormed.root_last, h]
  cases t
  cases u
  cases h
  cases hroot
  rfl

theorem Node.map_toNat_ofNat (node : Node Nat) :
    (node.map Int.ofNat).map Int.toNat = node := by
  cases node with
  | bits => rfl
  | wrap => rfl
  | collect collection first rest =>
    have hrest : (rest.map Int.ofNat).map Int.toNat = rest := by
      rw [List.map_map]
      exact List.map_id rest
    rw [map, map, hrest]
    rfl

/-- The nodes of a tree give this tree. -/
theorem Tree.ofNodes?_eq_ok (t : Tree) :
    Tree.ofNodes? (t.nodes.map (Node.map Int.ofNat)) t.root = .ok t := by
  have hcheck := checkShape_eq_ok t.wellFormed
  have hnodes : (t.nodes.map (Node.map Int.ofNat)).map (Node.map Int.toNat) = t.nodes := by
    rw [List.map_map]
    exact (List.map_congr_left fun node _ => Node.map_toNat_ofNat node).trans (List.map_id _)
  rw [Tree.ofNodes?]
  split
  · exact congrArg Except.ok (Tree.eq_of_nodes_eq hnodes)
  · next h =>
    rw [hcheck] at h
    cases h

end StreamTypes.River
