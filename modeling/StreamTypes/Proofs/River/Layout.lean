import StreamTypes.Proofs.River.Unfolding

/-!
# Post-order layouts

A type is laid out in a list of nodes by laying out its members one after the other
and adding the node of the form itself. The nodes of every part of the type then form a
block that ends with the root of that part, and each block is followed by the block of
the next member or by the node of the form around it.

## Main definitions

- `Term.size` — the number of forms of a type
- `Term.layout` — the nodes of a type in post-order
- `Term.tree` — the tree with these nodes

## Main statements

- `layout_wrap_iff`, `layout_collect_iff` — where the parts of a layout stand
- `Unfolds.of_layout` — a layout unfolds to the type that is laid out
- `wellFormed_layout` — a layout is a tree
- `Term.term_tree` — the tree of a type stands for this type
-/

namespace StreamTypes.River

namespace Term

mutual

/-- How many forms stand inside a form. -/
def inner : Term → Nat
  | .bits _ => 0
  | .wrap _ child _ => child.inner + 1
  | .collect _ first rest => first.inner + 1 + sizeOfRest rest

/-- The number of forms of all types in a list. -/
def sizeOfRest : List Term → Nat
  | [] => 0
  | term :: terms => term.inner + 1 + sizeOfRest terms

end

/-- The number of forms of a type. -/
def size (t : Term) : Nat :=
  t.inner + 1

/-- The roots of types that are laid out one after the other. -/
def rootsOfRest (base : Nat) : List Term → List Nat
  | [] => []
  | term :: terms => (base + term.inner) :: rootsOfRest (base + term.size) terms

mutual

/-- The nodes of a type in post-order, the first of which has index `base`. The root is
the last of them. -/
def layout (base : Nat) : Term → List (Node Nat)
  | .bits width => [.bits width]
  | .wrap wrapper child params =>
    layout base child ++ [.wrap wrapper (base + child.inner) params]
  | .collect collection first rest =>
    layout base first ++ (layoutOfRest (base + first.size) rest ++
      [.collect collection (base + first.inner) (rootsOfRest (base + first.size) rest)])

/-- The nodes of types that are laid out one after the other. -/
def layoutOfRest (base : Nat) : List Term → List (Node Nat)
  | [] => []
  | term :: terms => layout base term ++ layoutOfRest (base + term.size) terms

end

mutual

@[simp] theorem length_layout (base : Nat) : (t : Term) → (t.layout base).length = t.size
  | .bits width => rfl
  | .wrap wrapper child params => by
    rw [layout, List.length_append, length_layout base child]
    rfl
  | .collect collection first rest => by
    rw [layout, List.length_append, List.length_append, length_layout base first,
      length_layoutOfRest _ rest, size, size, inner]
    simp only [List.length_singleton]
    omega

@[simp] theorem length_layoutOfRest (base : Nat) :
    (terms : List Term) → (layoutOfRest base terms).length = sizeOfRest terms
  | [] => rfl
  | term :: terms => by
    rw [layoutOfRest, List.length_append, length_layout base term,
      length_layoutOfRest _ terms]
    rfl

end

end Term

/-! ### Layouts inside a list of nodes -/

section
variable {α : Type} {xs ys l : List α} {x : α} {b : Nat}

theorem append_prefix_drop :
    xs ++ ys <+: l.drop b ↔ xs <+: l.drop b ∧ ys <+: l.drop (b + xs.length) := by
  rw [← List.drop_drop]
  constructor
  · rintro ⟨zs, hzs⟩
    rw [← hzs]
    refine ⟨?_, ?_⟩
    · rw [List.append_assoc]
      exact List.prefix_append _ _
    · rw [List.append_assoc, List.drop_left]
      exact List.prefix_append _ _
  · rintro ⟨⟨zs, hzs⟩, hys⟩
    rw [← hzs, List.drop_left] at hys
    rw [← hzs]
    exact (List.prefix_append_right_inj xs).2 hys

theorem singleton_prefix_drop : [x] <+: l.drop b ↔ l[b]? = some x := by
  rw [← List.head?_drop]
  cases l.drop b with
  | nil => simp
  | cons y ys => simp [eq_comm]

end

variable {nodes : List (Node Nat)} {base : Nat}

theorem layout_bits_iff {width : Nat} :
    (Term.bits width).layout base <+: nodes.drop base ↔
      nodes[base + (Term.bits width).inner]? = some (.bits width) :=
  singleton_prefix_drop

/-- The layout of a wrapping form is that of its child, and its node behind it. -/
theorem layout_wrap_iff {wrapper : Wrapper} {child : Term} {params : Params} :
    (Term.wrap wrapper child params).layout base <+: nodes.drop base ↔
      child.layout base <+: nodes.drop base ∧
        nodes[base + (Term.wrap wrapper child params).inner]? =
          some (.wrap wrapper (base + child.inner) params) := by
  rw [Term.layout, append_prefix_drop, singleton_prefix_drop, Term.length_layout]
  rfl

/-- The layout of a collecting form is that of its first member, those of the other
ones, and its node behind them. -/
theorem layout_collect_iff {collection : Collection} {first : Term} {rest : List Term} :
    (Term.collect collection first rest).layout base <+: nodes.drop base ↔
      first.layout base <+: nodes.drop base ∧
        Term.layoutOfRest (base + first.size) rest <+: nodes.drop (base + first.size) ∧
          nodes[base + (Term.collect collection first rest).inner]? =
            some (.collect collection (base + first.inner)
              (Term.rootsOfRest (base + first.size) rest)) := by
  rw [Term.layout, append_prefix_drop, append_prefix_drop, singleton_prefix_drop,
    Term.length_layout, Term.length_layoutOfRest, Nat.add_assoc]
  rfl

theorem layoutOfRest_cons_iff {term : Term} {terms : List Term} :
    Term.layoutOfRest base (term :: terms) <+: nodes.drop base ↔
      term.layout base <+: nodes.drop base ∧
        Term.layoutOfRest (base + term.size) terms <+: nodes.drop (base + term.size) := by
  rw [Term.layoutOfRest, append_prefix_drop, Term.length_layout]

mutual

theorem Unfolds.of_layout {base : Nat} :
    {t : Term} → t.layout base <+: nodes.drop base → Unfolds nodes (base + t.inner) t
  | .bits width, h => .bits (layout_bits_iff.1 h)
  | .wrap wrapper child params, h => by
    obtain ⟨hchild, hnode⟩ := layout_wrap_iff.1 h
    exact .wrap hnode (Unfolds.of_layout hchild)
  | .collect collection first rest, h => by
    obtain ⟨hfirst, hrest, hnode⟩ := layout_collect_iff.1 h
    exact .collect hnode (Unfolds.of_layout hfirst) (UnfoldsRest.of_layout hrest)

theorem UnfoldsRest.of_layout {base : Nat} :
    {terms : List Term} → Term.layoutOfRest base terms <+: nodes.drop base →
      UnfoldsRest nodes (Term.rootsOfRest base terms) terms
  | [], _ => .nil
  | term :: terms, h => by
    obtain ⟨hterm, hmore⟩ := layoutOfRest_cons_iff.1 h
    exact .cons (Unfolds.of_layout hterm) (UnfoldsRest.of_layout hmore)

end

/-! ### A layout is a tree -/

theorem referencesFrom_append {ι : Type} (start : Nat) (xs ys : List (Node ι)) :
    referencesFrom start (xs ++ ys) =
      referencesFrom start xs ++ referencesFrom (start + xs.length) ys := by
  induction xs generalizing start with
  | nil => rfl
  | cons x xs ih =>
    rw [List.cons_append, referencesFrom, referencesFrom, ih, List.append_assoc,
      List.length_cons, Nat.add_assoc, Nat.add_comm 1]

theorem referencesFrom_singleton {ι : Type} (start : Nat) (node : Node ι) :
    referencesFrom start [node] = node.children.map (start, ·) := by
  rw [referencesFrom, referencesFrom, List.append_nil]

/-- A block is filled by a smaller block, its root, and what follows them. -/
theorem range'_split (base m n : Nat) :
    List.range' base (m + 1 + n) =
      List.range' base m ++ (base + m) :: List.range' (base + (m + 1)) n := by
  rw [← List.range'_append_1, List.range'_1_concat, List.append_assoc, List.singleton_append]

namespace Term

mutual

/-- The references in a layout point to each node but the root once. -/
theorem references_perm (base : Nat) : (t : Term) →
    ((referencesFrom base (t.layout base)).map Prod.snd).Perm (List.range' base t.inner)
  | .bits width => .nil
  | .wrap wrapper child params => by
    rw [layout, referencesFrom_append, referencesFrom_singleton, List.map_append, inner,
      List.range'_1_concat]
    exact (references_perm base child).append_right _
  | .collect collection first rest => by
    have hfirst := references_perm base first
    have hrest := referencesOfRest_perm (base + first.size) rest
    rw [layout, referencesFrom_append, referencesFrom_append, referencesFrom_singleton, inner,
      range'_split, length_layout, List.map_append, List.map_append, List.map_map]
    -- the root of a form refers to the roots of its members, which their own blocks lack
    have hroots : (Prod.snd ∘ fun c : Nat => (base + first.size +
        (layoutOfRest (base + first.size) rest).length, c)) = id := rfl
    rw [hroots, List.map_id, Node.children]
    exact hfirst.append (List.perm_middle.trans (hrest.cons _))

theorem referencesOfRest_perm (base : Nat) : (terms : List Term) →
    ((referencesFrom base (layoutOfRest base terms)).map Prod.snd ++
      rootsOfRest base terms).Perm (List.range' base (sizeOfRest terms))
  | [] => .nil
  | term :: terms => by
    have hterm := references_perm base term
    have hterms := referencesOfRest_perm (base + term.size) terms
    rw [layoutOfRest, referencesFrom_append, sizeOfRest, range'_split, length_layout,
      List.map_append, rootsOfRest, List.append_assoc]
    exact hterm.append (List.perm_middle.trans (hterms.cons _))

end

theorem lt_of_mem_rootsOfRest {base c : Nat} {terms : List Term}
    (h : c ∈ rootsOfRest base terms) : c < base + sizeOfRest terms := by
  induction terms generalizing base with
  | nil => simp [rootsOfRest] at h
  | cons term terms ih =>
    rw [rootsOfRest, List.mem_cons] at h
    rw [sizeOfRest]
    rcases h with rfl | h
    · omega
    · have := ih h
      rw [size] at this
      omega

mutual

theorem references_earlier (base : Nat) : (t : Term) →
    ∀ r ∈ referencesFrom base (t.layout base), r.2 < r.1
  | .bits width => nofun
  | .wrap wrapper child params => by
    intro r hr
    rw [layout, referencesFrom_append, List.mem_append, referencesFrom_singleton,
      length_layout] at hr
    rcases hr with hr | hr
    · exact references_earlier base child r hr
    · obtain ⟨c, hc, rfl⟩ := List.mem_map.1 hr
      obtain rfl := List.mem_singleton.1 hc
      exact Nat.lt_succ_self _
  | .collect collection first rest => by
    intro r hr
    rw [layout, referencesFrom_append, referencesFrom_append, List.mem_append, List.mem_append,
      referencesFrom_singleton, length_layout, length_layoutOfRest] at hr
    rcases hr with hr | hr | hr
    · exact references_earlier base first r hr
    · exact referencesOfRest_earlier _ rest r hr
    · obtain ⟨c, hc, rfl⟩ := List.mem_map.1 hr
      rcases List.mem_cons.1 hc with rfl | hc
      · rw [size]
        omega
      · exact lt_of_mem_rootsOfRest hc

theorem referencesOfRest_earlier (base : Nat) : (terms : List Term) →
    ∀ r ∈ referencesFrom base (layoutOfRest base terms), r.2 < r.1
  | [] => nofun
  | term :: terms => by
    intro r hr
    rw [layoutOfRest, referencesFrom_append, List.mem_append, length_layout] at hr
    rcases hr with hr | hr
    · exact references_earlier base term r hr
    · exact referencesOfRest_earlier _ terms r hr

end

end Term

theorem wellFormed_layout (t : Term) : WellFormed (t.layout 0) t.inner := by
  refine ⟨(Term.length_layout 0 t).symm, Term.references_earlier 0 t, fun c hc => ?_⟩
  rw [references, (Term.references_perm 0 t).count_eq]
  exact List.count_eq_one_of_mem (List.nodup_range' _) (List.mem_range'_1.2 (by omega))

/-- The tree in which the nodes of a type stand in post-order. -/
def Term.tree (t : Term) : Tree :=
  ⟨t.layout 0, t.inner, wellFormed_layout t⟩

theorem Term.unfolds_tree (t : Term) : Unfolds t.tree.nodes t.tree.root t := by
  have h : Unfolds (t.layout 0) (0 + t.inner) t := Unfolds.of_layout (List.prefix_refl _)
  rwa [Nat.zero_add] at h

theorem Term.term_tree (t : Term) : t.tree.term = t :=
  t.tree.unfolds_iff.1 t.unfolds_tree

end StreamTypes.River
