import StreamTypes.Proofs.River.References
import StreamTypes.Proofs.River.ShapeCheck

/-!
# Ways downwards

The references of a list of nodes lead from each node down to its children. A way down is
told by its steps: the nodes that are left, each with the position of the child that is
entered. Since every node of a tree but the root stands at one place only, the last step of
a way to it is known, and so there is one way from the root to each node.

## Main definitions

- `Descent` — a way down from one node to another one

## Main statements

- `Descent.add_length_le` — a way down leads to earlier nodes
- `below_iff_exists_descent` — what stands below a node is what a way down leads to
- `WellFormed.existsUnique_descent` — there is one way from the root to each node
-/

namespace StreamTypes.River

/-- A way down between two nodes. Each step leaves a node for the child at a position. -/
inductive Descent (nodes : List (Node Nat)) : Nat → List (Nat × Nat) → Nat → Prop
  | here {i : Nat} : i < nodes.length → Descent nodes i [] i
  | down {i p c k : Nat} {steps : List (Nat × Nat)} :
    childAt? nodes i p = some c → Descent nodes c steps k → Descent nodes i ((i, p) :: steps) k

variable {nodes : List (Node Nat)} {root i j k p c : Nat} {steps steps' : List (Nat × Nat)}

theorem WellFormed.child_lt_length (h : WellFormed nodes root)
    (hc : childAt? nodes i p = some c) : c < nodes.length :=
  Nat.lt_trans (h.lt_of_childAt? hc) (lt_length_of_childAt? hc)

namespace Descent

theorem append (h : Descent nodes i steps j) (h' : Descent nodes j steps' k) :
    Descent nodes i (steps ++ steps') k := by
  induction h with
  | here => exact h'
  | down hc _ ih => exact .down hc (ih h')

/-- A way down that takes a step ends with a step. -/
theorem exists_last (h : Descent nodes i steps k) :
    (steps = [] ∧ i = k) ∨
      ∃ before j p, steps = before ++ [(j, p)] ∧ Descent nodes i before j ∧
        childAt? nodes j p = some k := by
  induction h with
  | here => exact .inl ⟨rfl, rfl⟩
  | @down i p c k steps hc _ ih =>
    right
    rcases ih with ⟨rfl, rfl⟩ | ⟨before, j, q, rfl, hbefore, hlast⟩
    · exact ⟨[], i, p, rfl, .here (lt_length_of_childAt? hc), hc⟩
    · exact ⟨(i, p) :: before, j, q, rfl, .down hc hbefore, hlast⟩

/-- Each step of a way down leads to an earlier node. -/
theorem add_length_le (hwf : WellFormed nodes root) (h : Descent nodes i steps k) :
    k + steps.length ≤ i := by
  induction h with
  | here => exact Nat.le_refl _
  | down hc _ ih =>
    have hlt := hwf.lt_of_childAt? hc
    rw [List.length_cons]
    omega

theorem eq_nil_iff (hwf : WellFormed nodes root) (h : Descent nodes i steps k) :
    steps = [] ↔ k = i := by
  constructor
  · rintro rfl
    cases h
    rfl
  · rintro rfl
    have hle := h.add_length_le hwf
    exact List.eq_nil_of_length_eq_zero (by omega)

end Descent

theorem below_of_descent (h : Descent nodes i steps k) : Below nodes k i := by
  induction h with
  | here => exact .refl
  | down hc _ ih => exact ih.tail (isChild_iff.2 ⟨_, hc⟩)

/-- What stands below a node of a tree is what a way down from it leads to. -/
theorem below_iff_exists_descent (hwf : WellFormed nodes root) (hi : i < nodes.length) :
    Below nodes k i ↔ ∃ steps, Descent nodes i steps k := by
  constructor
  · intro h
    induction h with
    | refl => exact ⟨[], .here hi⟩
    | tail _ hchild ih =>
      obtain ⟨p, hp⟩ := isChild_iff.1 hchild
      obtain ⟨steps, hsteps⟩ := ih (hwf.child_lt_length hp)
      exact ⟨_, .down hp hsteps⟩
  · rintro ⟨steps, h⟩
    exact below_of_descent h

/-- A node of a tree other than the root is referred to from one place. -/
theorem WellFormed.existsUnique_place (h : WellFormed nodes root) (hc : c < root) :
    ∃! place : Nat × Nat, childAt? nodes place.1 place.2 = some c :=
  (count_references_eq_one_iff nodes c).1 (h.once c hc)

theorem WellFormed.not_childAt?_root (h : WellFormed nodes root) :
    childAt? nodes i p ≠ some root := by
  intro hc
  have hlt := h.lt_of_childAt? hc
  have hlen := lt_length_of_childAt? hc
  have := h.root_last
  omega

/-- There is a way from the root to each node. -/
theorem WellFormed.exists_descent (h : WellFormed nodes root) {k : Nat}
    (hk : k < nodes.length) : ∃ steps, Descent nodes root steps k := by
  have hlast := h.root_last
  by_cases hroot : k = root
  · subst hroot
    exact ⟨[], .here hk⟩
  · have hlt_root : k < root := by omega
    obtain ⟨⟨j, p⟩, hplace, -⟩ := h.existsUnique_place hlt_root
    have hlt : k < j := h.lt_of_childAt? hplace
    have hlen : j < nodes.length := lt_length_of_childAt? hplace
    obtain ⟨steps, hsteps⟩ := h.exists_descent hlen
    exact ⟨steps ++ [(j, p)], hsteps.append (.down hplace (.here hk))⟩
termination_by nodes.length - k

/-- Two ways from the root to the same node take the same steps. -/
theorem WellFormed.descent_unique (h : WellFormed nodes root) {k : Nat}
    {steps steps' : List (Nat × Nat)} (hsteps : Descent nodes root steps k)
    (hsteps' : Descent nodes root steps' k) : steps = steps' := by
  rcases hsteps.exists_last with ⟨rfl, rfl⟩ | ⟨before, j, p, rfl, hbefore, hlast⟩
  · exact ((hsteps'.eq_nil_iff h).2 rfl).symm
  · rcases hsteps'.exists_last with ⟨rfl, rfl⟩ | ⟨before', j', p', rfl, hbefore', hlast'⟩
    · exact absurd hlast h.not_childAt?_root
    · have hlt := h.lt_of_childAt? hlast
      have hlen := lt_length_of_childAt? hlast
      -- the node that is reached stands at one place, so both ways come through it
      have hplace : (j, p) = (j', p') :=
        (h.existsUnique_place (by have := h.root_last; omega)).unique hlast hlast'
      cases hplace
      rw [h.descent_unique hbefore hbefore']
termination_by nodes.length - k

end StreamTypes.River
