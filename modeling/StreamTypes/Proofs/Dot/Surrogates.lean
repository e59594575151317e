import StreamTypes.Dot
import StreamTypes.Proofs.Text.Utf8

/-!
# Surrogates in drawings

Nothing in a drawing is a surrogate but what the settings bring in: the name of the graph and the
name of the font. So a drawing has bytes exactly if these two have.

## Main statements

- `Graph.hasSurrogate_dot_iff` — where the surrogates of a drawing come from
-/

namespace StreamTypes

open Text.Utf8 (HasSurrogate hasSurrogate_append hasSurrogate_char_cons)
open WideText (ofString)

namespace Dot

theorem hasSurrogate_flatMap {α : Type} {f : α → WideText} {l : List α} :
    HasSurrogate (l.flatMap f) ↔ ∃ x ∈ l, HasSurrogate (f x) := by
  simp only [HasSurrogate, List.mem_flatMap]
  constructor
  · rintro ⟨index, x, hx, hindex⟩
    exact ⟨x, hx, index, hindex⟩
  · rintro ⟨x, hx, index, hindex⟩
    exact ⟨index, x, hx, hindex⟩

theorem mem_escapedPoint_iff {c : CodePoint} {index : Fin 0x800} :
    .surrogate index ∈ escapedPoint c ↔ c = .surrogate index := by
  unfold escapedPoint
  split <;> simp [eq_comm]

@[simp] theorem hasSurrogate_literal {t : WideText} :
    HasSurrogate (literal t) ↔ HasSurrogate t := by
  rw [literal, List.cons_append, hasSurrogate_char_cons, hasSurrogate_append]
  simp [HasSurrogate, mem_escapedPoint_iff]

theorem hasSurrogate_unlines {lines : List WideText} :
    HasSurrogate (unlines lines) ↔ ∃ line ∈ lines, HasSurrogate line := by
  simp [unlines, hasSurrogate_flatMap, hasSurrogate_append]

@[simp] theorem not_hasSurrogate_pad (level : Nat) : ¬ HasSurrogate (pad level) := by
  simp [HasSurrogate, pad]

mutual

theorem not_hasSurrogate_itemLines (clusters : Bool) (level : Nat) :
    ∀ item : Item, ∀ line ∈ itemLines clusters level item, ¬ HasSurrogate line
  | .node decl => by
    simp [itemLines, nodeLine, hasSurrogate_append]
  | .cluster decl items => by
    cases clusters with
    | false => exact not_hasSurrogate_itemsLines false level items
    | true =>
      have hitems := not_hasSurrogate_itemsLines true (level + 1) items
      intro line hline
      simp only [itemLines, if_true, List.mem_append, List.mem_cons, List.not_mem_nil,
        or_false] at hline
      obtain ((rfl | rfl | rfl) | hline) | rfl := hline
      · simp [hasSurrogate_append]
      · simp [hasSurrogate_append]
      · simp [hasSurrogate_append]
      · exact hitems line hline
      · simp [hasSurrogate_append]

theorem not_hasSurrogate_itemsLines (clusters : Bool) (level : Nat) :
    ∀ items : List Item, ∀ line ∈ itemsLines clusters level items, ¬ HasSurrogate line
  | [] => by simp [itemsLines]
  | item :: items => by
    have hitem := not_hasSurrogate_itemLines clusters level item
    have hitems := not_hasSurrogate_itemsLines clusters level items
    simp only [itemsLines, List.mem_append]
    exact fun line hline => hline.elim (hitem line) (hitems line)

end

theorem not_hasSurrogate_edgeLine (edge : String × String) : ¬ HasSurrogate (edgeLine edge) :=
  Text.Utf8.not_hasSurrogate_ofString _

theorem hasSurrogate_headLines {options : DotOptions} :
    (∃ line ∈ headLines options, HasSurrogate line) ↔
      HasSurrogate options.graphName ∨ HasSurrogate options.fontname := by
  simp [headLines, hasSurrogate_append]

end Dot

/-- The surrogates of a drawing stand in the name of the graph or in that of the font. -/
theorem Graph.hasSurrogate_dot_iff (g : Graph) (options : DotOptions) :
    HasSurrogate (g.dot options) ↔
      HasSurrogate options.graphName ∨ HasSurrogate options.fontname := by
  rw [dot, Dot.hasSurrogate_unlines, ← Dot.hasSurrogate_headLines]
  constructor
  · rintro ⟨line, hline, h⟩
    simp only [List.mem_append, List.mem_map, List.mem_singleton] at hline
    obtain ((hline | hline) | ⟨edge, -, rfl⟩) | rfl := hline
    · exact ⟨line, hline, h⟩
    · exact absurd h (Dot.not_hasSurrogate_itemsLines _ _ _ line hline)
    · exact absurd h (Dot.not_hasSurrogate_edgeLine edge)
    · simp at h
  · rintro ⟨line, hline, h⟩
    exact ⟨line, by simp [hline], h⟩

end StreamTypes
