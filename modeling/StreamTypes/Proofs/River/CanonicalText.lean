import StreamTypes.Proofs.River.Acceptance
import StreamTypes.Proofs.River.PostOrder
import StreamTypes.Proofs.Text.Blank

/-!
# Canonical texts are read back

The canonical text of a type is an expression for it, up to one thing: where only later
parameters are written, the text has to hold the number of elements, too, so that its
default is read back as a written parameter. Reading the text of a tree therefore gives
the post-order tree of the type with these defaults written out. Trees that come from
reading a text have no such gaps and are given back as they are.

## Main definitions

- `Params.completed`, `Term.completed` — the default number of elements is written out
- `Term.numbers`, `Node.numbers` — the numbers that are written

## Main statements

- `expression_text` — the canonical text is an expression for the completed type
- `parseWithin_trim_text` — the canonical text of a tree that is read is read back
- `canonical_text_exact` — what reading the canonical text of a tree gives
-/

namespace StreamTypes.River

open Peg

namespace Params

/-- A later parameter is written while the number of elements is not. -/
def Gapped (p : Params) : Prop :=
  p.elements = none ∧ (p.complexity ≠ none ∨ p.userbits ≠ none)

instance (p : Params) : Decidable p.Gapped :=
  inferInstanceAs (Decidable (_ ∧ _))

/-- The parameters with the default number of elements written out where a later
parameter needs it. -/
def completed (p : Params) : Params :=
  if p.Gapped then { p with elements := some 1 } else p

/-- The parameters that are written. -/
def numbers (p : Params) : List Nat :=
  p.elements.toList ++ p.complexity.toList ++ p.userbits.toList

theorem completed_eq_iff (p : Params) : p.completed = p ↔ ¬ p.Gapped := by
  unfold completed
  split
  · next h =>
    refine ⟨fun heq => ?_, fun hnot => (hnot h).elim⟩
    have helements := h.1
    rw [← heq] at helements
    cases helements
  · next h => exact ⟨fun _ => h, fun _ => rfl⟩

/-- Where a later parameter is written the number of elements is written, too. -/
theorem completed_of_later {elements complexity userbits : Option Nat}
    (h : complexity ≠ none ∨ userbits ≠ none) :
    completed ⟨elements, complexity, userbits⟩ =
      ⟨some (elements.getD 1), complexity, userbits⟩ := by
  unfold completed
  cases elements with
  | none => rw [if_pos ⟨rfl, h⟩, Option.getD_none]
  | some n => rw [if_neg fun hgapped => Option.some_ne_none n hgapped.1, Option.getD_some]

/-- Writing out a default does not change what the parameters mean. -/
theorem resolved_completed (p : Params) : p.completed.resolved = p.resolved := by
  unfold completed
  split
  · next h =>
    rw [resolved, resolved, effectiveElements, effectiveElements, h.1]
    rfl
  · rfl

theorem text_completed (p : Params) : p.completed.text = p.text := by
  obtain ⟨elements, complexity, userbits⟩ := p
  cases elements <;> cases complexity <;> cases userbits <;> rfl

end Params

namespace Term

mutual

/-- The type with the default number of elements written out where a later parameter
needs it. -/
def completed : Term → Term
  | .bits width => .bits width
  | .wrap wrapper child params => .wrap wrapper child.completed params.completed
  | .collect collection first rest => .collect collection first.completed (completedRest rest)

/-- All types of a list with these defaults written out. -/
def completedRest : List Term → List Term
  | [] => []
  | term :: terms => term.completed :: completedRest terms

end

mutual

/-- The numbers that are written in a type. -/
def numbers : Term → List Nat
  | .bits width => [width]
  | .wrap _ child params => child.numbers ++ params.numbers
  | .collect _ first rest => first.numbers ++ numbersOfRest rest

/-- The numbers that are written in the types of a list. -/
def numbersOfRest : List Term → List Nat
  | [] => []
  | term :: terms => term.numbers ++ numbersOfRest terms

end

mutual

theorem text_completed : (t : Term) → t.completed.text = t.text
  | .bits width => rfl
  | .wrap wrapper child params => by
    rw [completed, text, text, text_completed child, paramsSuffix, paramsSuffix,
      params.text_completed]
  | .collect collection first rest => by
    rw [completed, text, text, text_completed first, textOfRest_completed rest]

theorem textOfRest_completed : (terms : List Term) →
    textOfRest (completedRest terms) = textOfRest terms
  | [] => rfl
  | term :: terms => by
    rw [completedRest, textOfRest, textOfRest, text_completed term, textOfRest_completed terms]

end

mutual

theorem nesting_completed : (t : Term) → t.completed.nesting = t.nesting
  | .bits width => rfl
  | .wrap wrapper child params => by rw [completed, nesting, nesting, nesting_completed child]
  | .collect collection first rest => by
    rw [completed, nesting, nesting, nesting_completed first, nestingOfRest_completed rest]

theorem nestingOfRest_completed : (terms : List Term) →
    nestingOfRest (completedRest terms) = nestingOfRest terms
  | [] => rfl
  | term :: terms => by
    rw [completedRest, nestingOfRest, nestingOfRest, nesting_completed term,
      nestingOfRest_completed terms]

end

end Term

/-! ### The canonical text is an expression -/

theorem fieldText_field {field : Option Nat}
    (h : ∀ n ∈ field.toList, n < 10 ^ Text.numeralLimit) :
    Field field (Params.fieldText field).toList := by
  cases field with
  | none => exact .empty
  | some n => exact .written (Text.isNumeral_repr (h n (by simp)))

/-- Parameters that start with a numeral are written behind a comma and a space. -/
theorem toList_paramsSuffix {p : Params} {n : Nat} {more : String}
    (h : p.text = n.repr ++ more) :
    (Term.paramsSuffix p).toList = ',' :: ([' '] ++ (n.repr.toList ++ more.toList)) := by
  have hne : p.text.isEmpty = false := by
    rw [h, String.isEmpty_eq_false_iff, Ne, String.append_eq_empty_iff]
    intro hempty
    have hdigits : n.repr.toList ≠ [] := by
      rw [Nat.toList_repr]
      exact Nat.toDigits_ne_nil
    exact hdigits (by rw [hempty.1]; rfl)
  have hsuffix : Term.paramsSuffix p = ", " ++ p.text := by
    rw [Term.paramsSuffix]
    exact if_neg (by rw [hne]; decide)
  rw [hsuffix, h, String.toList_append, String.toList_append]
  rfl

/-- The parameters are read back with the default number of elements written out. -/
theorem arguments_paramsSuffix {p : Params}
    (h : ∀ n ∈ p.numbers, n < 10 ^ Text.numeralLimit) :
    Arguments p.completed (Term.paramsSuffix p).toList := by
  have hdefault : 1 < 10 ^ Text.numeralLimit := Nat.one_lt_pow (by decide) (by decide)
  obtain ⟨elements, complexity, userbits⟩ := p
  have helements : elements.getD 1 < 10 ^ Text.numeralLimit := by
    cases elements with
    | none => exact hdefault
    | some n => exact h n (by simp [Params.numbers])
  have hcomplexity : Field complexity (Params.fieldText complexity).toList :=
    fieldText_field fun n hn => h n (by simp [Params.numbers, hn])
  have huserbits : Field userbits (Params.fieldText userbits).toList :=
    fieldText_field fun n hn => h n (by simp [Params.numbers, hn])
  have hnumeral := Text.isNumeral_repr helements
  -- how much is written depends on which parameter is the last one
  cases userbits with
  | some u =>
    have htext : Params.text ⟨elements, complexity, some u⟩ = (elements.getD 1).repr ++
        (", " ++ (Params.fieldText complexity ++ (", " ++ u.repr))) := by
      cases complexity <;> simp [Params.text, String.append_assoc]
    rw [toList_paramsSuffix htext, Params.completed_of_later (.inr (Option.some_ne_none u)),
      String.toList_append, String.toList_append, String.toList_append]
    exact .userbits space_mem_gaps hnumeral space_mem_gaps hcomplexity space_mem_gaps huserbits
  | none =>
    cases complexity with
    | some c =>
      have htext : Params.text ⟨elements, some c, none⟩ = (elements.getD 1).repr ++
          (", " ++ c.repr) := by
        simp [Params.text, String.append_assoc]
      rw [toList_paramsSuffix htext, Params.completed_of_later (.inl (Option.some_ne_none c)),
        String.toList_append]
      exact .complexity space_mem_gaps hnumeral space_mem_gaps hcomplexity
    | none =>
      cases elements with
      | none => exact .absent
      | some n =>
        have htext : Params.text ⟨some n, none, none⟩ = n.repr ++ "" := by
          rw [Params.text, String.append_empty]
        have hsuffix := toList_paramsSuffix htext
        rw [String.toList_empty, List.append_nil] at hsuffix
        rw [hsuffix]
        exact .elements space_mem_gaps hnumeral

theorem toList_enclosed (kind : Kind) (body : String) :
    (kind.keyword ++ "<" ++ body ++ ">").toList = enclosed kind body.toList := by
  simp [enclosed]

mutual

theorem expression_text : (t : Term) → (∀ n ∈ t.numbers, n < 10 ^ Text.numeralLimit) →
    Expression t.completed t.text.toList
  | .bits width, h => by
    have htext : (Term.bits width).text.toList = enclosed .bits width.repr.toList :=
      toList_enclosed .bits width.repr
    rw [htext]
    exact .bits (Text.isNumeral_repr (h width (by simp [Term.numbers])))
  | .wrap wrapper child params, h => by
    have htext : (Term.wrap wrapper child params).text.toList = enclosed (.wrap wrapper)
        (child.text.toList ++ (Term.paramsSuffix params).toList) := by
      rw [← String.toList_append, ← toList_enclosed, Term.text, ← String.append_assoc]
      rfl
    rw [htext]
    exact .wrap (expression_text child fun n hn => h n (by simp [Term.numbers, hn]))
      (arguments_paramsSuffix fun n hn => h n (by simp [Term.numbers, hn]))
  | .collect collection first rest, h => by
    have htext : (Term.collect collection first rest).text.toList =
        enclosed (.collect collection) (first.text.toList ++ (Term.textOfRest rest).toList) := by
      rw [← String.toList_append, ← toList_enclosed, Term.text, ← String.append_assoc]
      rfl
    rw [htext]
    exact .collect (expression_text first fun n hn => h n (by simp [Term.numbers, hn]))
      (members_text rest fun n hn => h n (by simp [Term.numbers, hn]))

theorem members_text : (terms : List Term) →
    (∀ n ∈ Term.numbersOfRest terms, n < 10 ^ Text.numeralLimit) →
      Members (Term.completedRest terms) (Term.textOfRest terms).toList
  | [], _ => .nil
  | term :: terms, h => by
    have htext : (Term.textOfRest (term :: terms)).toList =
        ',' :: ([' '] ++ (term.text.toList ++ (Term.textOfRest terms).toList)) := by
      simp [Term.textOfRest]
    rw [htext]
    exact .cons space_mem_gaps
      (expression_text term fun n hn => h n (by simp [Term.numbersOfRest, hn]))
      (members_text terms fun n hn => h n (by simp [Term.numbersOfRest, hn]))

end

/-! ### Types that come from a text -/

theorem field_numbers {field : Option Nat} {w : List Char} (h : Field field w) :
    ∀ n ∈ field.toList, n < 10 ^ Text.numeralLimit := by
  cases h with
  | empty => nofun
  | written hw =>
    intro n hn
    rw [Option.toList_some, List.mem_singleton] at hn
    exact hn ▸ hw.lt

/-- Parameters that are read have no gap in front, and all of them can be written. -/
theorem arguments_exact {p : Params} {a : List Char} (h : Arguments p a) :
    p.completed = p ∧ ∀ n ∈ p.numbers, n < 10 ^ Text.numeralLimit := by
  have hbound : ∀ {n : Nat} {c u : Option Nat} {w : List Char}, Text.IsNumeral w n →
      (∀ m ∈ c.toList, m < 10 ^ Text.numeralLimit) →
      (∀ m ∈ u.toList, m < 10 ^ Text.numeralLimit) →
        ∀ m ∈ Params.numbers ⟨some n, c, u⟩, m < 10 ^ Text.numeralLimit := by
    intro n c u w hw hc hu m hm
    rw [Params.numbers, Option.toList_some, List.mem_append, List.mem_append,
      List.mem_singleton] at hm
    rcases hm with (rfl | hm) | hm
    · exact hw.lt
    · exact hc m hm
    · exact hu m hm
  cases h with
  | absent => exact ⟨rfl, nofun⟩
  | empty => exact ⟨rfl, nofun⟩
  | elements hg hw => exact ⟨rfl, hbound hw nofun nofun⟩
  | complexity hg hw hg' hc => exact ⟨rfl, hbound hw (field_numbers hc) nofun⟩
  | userbits hg hw hg' hc hg'' hu =>
    exact ⟨rfl, hbound hw (field_numbers hc) (field_numbers hu)⟩

mutual

/-- A type that is read from a text is complete, and all its numbers can be written. -/
theorem expression_exact {t : Term} {w : List Char} : Expression t w →
    t.completed = t ∧ ∀ n ∈ t.numbers, n < 10 ^ Text.numeralLimit
  | .bits hw => by
    refine ⟨rfl, fun n hn => ?_⟩
    rw [Term.numbers, List.mem_singleton] at hn
    exact hn ▸ hw.lt
  | .wrap hw ha => by
    obtain ⟨hchild, hnumbers⟩ := expression_exact hw
    obtain ⟨hparams, hnumbers'⟩ := arguments_exact ha
    refine ⟨by rw [Term.completed, hchild, hparams], fun n hn => ?_⟩
    rw [Term.numbers, List.mem_append] at hn
    exact hn.elim (hnumbers n) (hnumbers' n)
  | .collect hw ha => by
    obtain ⟨hfirst, hnumbers⟩ := expression_exact hw
    obtain ⟨hrest, hnumbers'⟩ := members_exact ha
    refine ⟨by rw [Term.completed, hfirst, hrest], fun n hn => ?_⟩
    rw [Term.numbers, List.mem_append] at hn
    exact hn.elim (hnumbers n) (hnumbers' n)

theorem members_exact {terms : List Term} {a : List Char} : Members terms a →
    Term.completedRest terms = terms ∧
      ∀ n ∈ Term.numbersOfRest terms, n < 10 ^ Text.numeralLimit
  | .nil => ⟨rfl, nofun⟩
  | .cons hg hw ha => by
    obtain ⟨hterm, hnumbers⟩ := expression_exact hw
    obtain ⟨hterms, hnumbers'⟩ := members_exact ha
    refine ⟨by rw [Term.completedRest, hterm, hterms], fun n hn => ?_⟩
    rw [Term.numbersOfRest, List.mem_append] at hn
    exact hn.elim (hnumbers n) (hnumbers' n)

end

/-! ### Nodes -/

namespace Node

/-- The numbers that are written in a node. -/
def numbers {ι : Type} : Node ι → List Nat
  | .bits width => [width]
  | .wrap _ _ params => params.numbers
  | .collect _ _ _ => []

/-- A later parameter of the node is written while the number of elements is not. -/
def Gapped {ι : Type} : Node ι → Prop
  | .wrap _ _ params => params.Gapped
  | .bits _ | .collect _ _ _ => False

end Node

variable {nodes : List (Node Nat)}

mutual

/-- The numbers of a type are those of its nodes. -/
theorem Unfolds.mem_numbers {i n : Nat} {t : Term} : Unfolds nodes i t → n ∈ t.numbers →
    ∃ node ∈ nodes, n ∈ node.numbers
  | .bits h, hn => ⟨_, List.mem_of_getElem? h, hn⟩
  | .wrap h hchild, hn => by
    rw [Term.numbers, List.mem_append] at hn
    rcases hn with hn | hn
    · exact hchild.mem_numbers hn
    · exact ⟨_, List.mem_of_getElem? h, hn⟩
  | .collect h hfirst hrest, hn => by
    rw [Term.numbers, List.mem_append] at hn
    exact hn.elim hfirst.mem_numbers hrest.mem_numbers

theorem UnfoldsRest.mem_numbers {indices : List Nat} {n : Nat} {terms : List Term} :
    UnfoldsRest nodes indices terms → n ∈ Term.numbersOfRest terms →
      ∃ node ∈ nodes, n ∈ node.numbers
  | .cons h hrest, hn => by
    rw [Term.numbersOfRest, List.mem_append] at hn
    exact hn.elim h.mem_numbers hrest.mem_numbers

end

mutual

theorem Unfolds.completed_eq (hnodes : ∀ node ∈ nodes, ¬ node.Gapped) {i : Nat} {t : Term} :
    Unfolds nodes i t → t.completed = t
  | .bits _ => rfl
  | .wrap h hchild => by
    rw [Term.completed, hchild.completed_eq hnodes,
      (Params.completed_eq_iff _).2 (hnodes _ (List.mem_of_getElem? h))]
  | .collect _ hfirst hrest => by
    rw [Term.completed, hfirst.completed_eq hnodes, hrest.completed_eq hnodes]

theorem UnfoldsRest.completed_eq (hnodes : ∀ node ∈ nodes, ¬ node.Gapped)
    {indices : List Nat} {terms : List Term} :
    UnfoldsRest nodes indices terms → Term.completedRest terms = terms
  | .nil => rfl
  | .cons h hrest => by
    rw [Term.completedRest, h.completed_eq hnodes, hrest.completed_eq hnodes]

end

mutual

/-- The layout of a complete type has no gapped node. -/
theorem not_gapped_of_layout {node : Node Nat} : (t : Term) → t.completed = t →
    ∀ base, node ∈ t.layout base → ¬ node.Gapped
  | .bits width, _, base, hnode => by
    rw [Term.layout, List.mem_singleton] at hnode
    rw [hnode]
    exact id
  | .wrap wrapper child params, h, base, hnode => by
    rw [Term.completed, Term.wrap.injEq] at h
    rw [Term.layout, List.mem_append, List.mem_singleton] at hnode
    rcases hnode with hnode | rfl
    · exact not_gapped_of_layout child h.2.1 base hnode
    · exact (Params.completed_eq_iff params).1 h.2.2
  | .collect collection first rest, h, base, hnode => by
    rw [Term.completed, Term.collect.injEq] at h
    rw [Term.layout, List.mem_append, List.mem_append, List.mem_singleton] at hnode
    rcases hnode with hnode | hnode | rfl
    · exact not_gapped_of_layout first h.2.1 base hnode
    · exact not_gapped_of_layoutOfRest rest h.2.2 _ hnode
    · exact id

theorem not_gapped_of_layoutOfRest {node : Node Nat} : (terms : List Term) →
    Term.completedRest terms = terms →
      ∀ base, node ∈ Term.layoutOfRest base terms → ¬ node.Gapped
  | [], _, _, hnode => by
    rw [Term.layoutOfRest] at hnode
    cases hnode
  | term :: terms, h, base, hnode => by
    rw [Term.completedRest, List.cons.injEq] at h
    rw [Term.layoutOfRest, List.mem_append] at hnode
    rcases hnode with hnode | hnode
    · exact not_gapped_of_layout term h.1 base hnode
    · exact not_gapped_of_layoutOfRest terms h.2 _ hnode

end

/-! ### Reading a canonical text -/

theorem text_tree (t : Term) : t.tree.text = t.text := by
  rw [Tree.text, t.term_tree]

/-- The canonical text of a type that is read from a text denotes the same type. -/
theorem expression_text_of_expression {t : Term} {w : List Char} (h : Expression t w) :
    Expression t t.text.toList := by
  obtain ⟨hcompleted, hnumbers⟩ := expression_exact h
  have htext := expression_text t hnumbers
  rwa [hcompleted] at htext

/-- Reading the canonical text of a tree gives the post-order tree of the completed
type. -/
theorem parseWithin_text {t : Tree} {limit : Nat} {maxDepth : Int}
    (hnumbers : ∀ node ∈ t.nodes, ∀ n ∈ node.numbers, n < 10 ^ Text.numeralLimit)
    (hlimit : t.text.length < limit) (hdepth : (t.depth : Int) - 1 ≤ maxDepth) :
    parseWithin limit t.text maxDepth = .ok t.term.completed.tree := by
  have hunfolds := t.unfolds_iff.2 rfl
  have hbound : ∀ n ∈ t.term.numbers, n < 10 ^ Text.numeralLimit := by
    intro n hn
    obtain ⟨node, hnode, hmem⟩ := hunfolds.mem_numbers hn
    exact hnumbers node hnode n hmem
  refine parseWithin_eq_ok hlimit (expression_text t.term hbound) ?_
  rw [t.depth_eq, t.term.depth_eq_nesting] at hdepth
  rw [t.term.nesting_completed]
  omega

section
variable {limit : Nat} {source : String} {maxDepth : Int} {tree : Tree}

end

/-- The post-order tree of the completed type is the tree itself exactly if that is in
post-order and has no gap. -/
theorem tree_completed_eq_iff (t : Tree) :
    t.term.completed.tree = t ↔
      t.postOrder = List.range t.size ∧ ∀ node ∈ t.nodes, ¬ node.Gapped := by
  constructor
  · intro h
    have hterm : t.term.completed = t.term := by
      rw [← t.term.completed.term_tree, h]
    have hnodes : t.nodes = t.term.layout 0 := by
      rw [← congrArg Tree.nodes h, Term.tree, hterm]
    refine ⟨t.nodes_eq_layout_iff.1 hnodes, fun node hnode => ?_⟩
    rw [hnodes] at hnode
    exact not_gapped_of_layout t.term hterm 0 hnode
  · rintro ⟨hpost, hgapped⟩
    refine Tree.eq_of_nodes_eq ?_
    rw [(t.unfolds_iff.2 rfl).completed_eq hgapped]
    exact (t.nodes_eq_layout_iff.2 hpost).symm

/-- The canonical text of a tree is read back as the completed type in post-order, and
as the tree itself exactly if that is in post-order and has no gap. Trees that come
from a text are read back as they are, so their texts tell them apart. -/
theorem canonical_text_exact (limit : Nat) (maxDepth : Int) :
    (∀ t : Tree, (∀ node ∈ t.nodes, ∀ n ∈ node.numbers, n < 10 ^ Text.numeralLimit) →
      t.text.length < limit → (t.depth : Int) - 1 ≤ maxDepth →
        ∃ t', parseWithin limit t.text maxDepth = .ok t' ∧ t'.term = t.term.completed ∧
          t'.text = t.text ∧
          (t' = t ↔ t.postOrder = List.range t.size ∧ ∀ node ∈ t.nodes, ¬ node.Gapped)) ∧
    (∀ p : Params, p.completed.resolved = p.resolved) ∧
    (∀ limit₀ source t, parseWithin limit₀ source maxDepth = .ok t →
      t.text.length < limit → parseWithin limit t.text maxDepth = .ok t) ∧
    (∀ limit₁ limit₂ maxDepth₂ source₁ source₂ t₁ t₂,
      parseWithin limit₁ source₁ maxDepth = .ok t₁ →
      parseWithin limit₂ source₂ maxDepth₂ = .ok t₂ → (t₁ = t₂ ↔ t₁.text = t₂.text)) := by
  refine ⟨fun t hnumbers hlimit hdepth => ?_, Params.resolved_completed, ?_, ?_⟩
  · refine ⟨_, parseWithin_text hnumbers hlimit hdepth, Term.term_tree _, ?_,
      tree_completed_eq_iff t⟩
    rw [text_tree, Term.text_completed]
    rfl
  · intro limit₀ source t h hlimit
    obtain ⟨u, hu, hnesting, rfl⟩ := exists_of_parseWithin_eq_ok h
    rw [text_tree] at hlimit ⊢
    exact parseWithin_eq_ok hlimit (expression_text_of_expression hu) hnesting
  · intro limit₁ limit₂ maxDepth₂ source₁ source₂ t₁ t₂ h₁ h₂
    obtain ⟨u₁, hu₁, -, rfl⟩ := exists_of_parseWithin_eq_ok h₁
    obtain ⟨u₂, hu₂, -, rfl⟩ := exists_of_parseWithin_eq_ok h₂
    refine ⟨fun h => by rw [h], fun h => ?_⟩
    -- one text is an expression for both types, and it denotes one type only
    rw [text_tree, text_tree] at h
    have hu₁' := expression_text_of_expression hu₁
    rw [h] at hu₁'
    rw [expression_unique hu₁' (expression_text_of_expression hu₂)]

/-- Members that are stored out of order are read back in order. -/
theorem canonical_text_exact_of_swapped :
    ∃ t t' : Tree, t.nodes = [.bits 1, .bits 2, .collect .group 1 [0]] ∧
      t.text = "Group<Bits<2>, Bits<1>>" ∧ parseWithin 24 t.text 1 = .ok t' ∧
      t'.text = t.text ∧ t' ≠ t := by
  let t : Tree := ⟨[.bits 1, .bits 2, .collect .group 1 [0]], 2, ⟨rfl, by decide, by decide⟩⟩
  have hnumbers : ∀ node ∈ t.nodes, ∀ n ∈ node.numbers, n < 10 ^ Text.numeralLimit := by
    have hsmall : ∀ node ∈ t.nodes, ∀ n ∈ node.numbers, n < 10 ^ 1 := by decide
    intro node hnode n hn
    exact Nat.lt_of_lt_of_le (hsmall node hnode n hn)
      (Nat.pow_le_pow_right (by decide) (by decide))
  have htext : t.text = "Group<Bits<2>, Bits<1>>" := by decide +kernel
  obtain ⟨t', hparse, -, htext', hiff⟩ := (canonical_text_exact 24 1).1 t hnumbers
    (by rw [htext]; decide) (by decide)
  refine ⟨t, t', rfl, htext, hparse, htext', fun heq => ?_⟩
  exact absurd (hiff.1 heq).1 (by decide)

end StreamTypes.River
